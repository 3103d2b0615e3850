import Mathlib.Data.Prod.Lex
import Agent24.Platform

/-! `next_fire.rs`: what the three schedule specs fire at next, over instants of any precision. -/

set_option autoImplicit false
namespace Agent24.Scheduler
open Library

/-- `DateTime<Utc>`: seconds since 1970, and nanoseconds that run past 10^9 in a leap second. -/
structure Instant where
  secs : Int
  nanos : Nat
  inSecond : nanos < 1_000_000_000 ∨ nanos < 2_000_000_000 ∧ secs % 60 = 59
  deriving DecidableEq

namespace Instant

section
variable (t : Instant)

def lexKey : Lex (Int × Nat) := toLex (t.secs, t.nanos)

theorem lexKey_injective : Function.Injective lexKey := by
  intro a b same
  have parts : (a.secs, a.nanos) = (b.secs, b.nanos) := congrArg ofLex same
  cases a
  cases b
  simpa using parts

instance : LinearOrder Instant := LinearOrder.lift' lexKey lexKey_injective

theorem lt_iff {a b : Instant} : a < b ↔ a.secs < b.secs ∨ a.secs = b.secs ∧ a.nanos < b.nanos :=
  Prod.Lex.toLex_lt_toLex

/-- What is left of an instant in the wire format, which has no digits below the second. -/
def whole : Instant :=
  ⟨t.secs, t.nanos - t.nanos % 1_000_000_000, by have := t.inSecond; omega⟩

/-- `+ Duration::seconds(n)` for a positive `n`: a leap second is left behind. -/
def plus (n : Nat) : Instant := ⟨t.secs + n, t.nanos % 1_000_000_000, .inl (Nat.mod_lt _ (by decide))⟩

/-- `- Duration::seconds(n)` for a positive `n`. -/
def minus (n : Nat) : Instant :=
  ⟨t.secs + (t.nanos / 1_000_000_000 : Nat) - n, t.nanos % 1_000_000_000, .inl (Nat.mod_lt _ (by decide))⟩

/-- The years 0000 to 9999: the others take a sign or a fifth digit, which RFC 3339 does not read. -/
def Writable : Prop := -62_167_219_200 ≤ t.secs ∧ t.secs < 253_402_300_800

end

instance (t : Instant) : Decidable t.Writable := inferInstanceAs (Decidable (_ ∧ _))

theorem whole_of_nanos {t : Instant} (even : t.nanos = 0) : t.whole = t := by
  cases t
  simp_all [whole]

theorem lt_whole_plus (t : Instant) {n : Nat} (long : 0 < n) : t < (t.plus n).whole := by
  rw [lt_iff]
  simp only [whole, plus]
  omega

end Instant

inductive ScheduleSpec where
  | cron (expr : String) (tz : Option String)
  | every (secs : Nat)
  | atTs (ts : String)
  deriving DecidableEq

inductive SpecError where
  | pastAt
  | invalid (text : String)
  deriving DecidableEq

def SpecError.text : SpecError → String
  | .pastAt => "at timestamp is more than 60 seconds in the past"
  | .invalid reason => "invalid schedule: " ++ reason

structure Calendar where
  /-- `DateTime::parse_from_rfc3339`, or why it fails. -/
  parse : String → Except String Instant
  /-- `%Y-%m-%dT%H:%M:%SZ`. -/
  fmt : Instant → String
  /-- A text in that format reads back, to the second, where the year has four digits. -/
  parse_fmt : ∀ t, t.Writable → parse (fmt t) = .ok t.whole
  parse_fmt_far : ∀ t, ¬ t.Writable → ∀ read, parse (fmt t) ≠ .ok read
  knownTz : String → Bool
  cronError : String → Option String
  /-- The first occurrence after an instant, in a time zone. -/
  cronAfter : String → String → Instant → Option Instant
  cronAfter_later : ∀ expr tz t next, cronAfter expr tz t = some next →
    t < next ∧ next.nanos = 0 ∧ next.Writable

def minEverySecs : Nat := 60
def maxEverySecs : Nat := 86_400

/-- `expr.split_whitespace().count()`. -/
def fieldCount (expr : String) : Nat := ((Text.split isWhitespace expr).filter (· ≠ "")).length

/-- Five fields get the seconds `0`; six have their own. -/
def normalizeCron (expr : String) : Except SpecError String :=
  match fieldCount expr with
  | 5 => .ok ("0 " ++ expr)
  | 6 => .ok expr
  | n => .error (.invalid
      ("cron expression must have 5 or 6 fields (6th is a leading seconds field), got " ++ toString n))

variable (cal : Calendar)

def parseIso (ts : String) : Except SpecError Instant :=
  match cal.parse ts with
  | .ok t => .ok t
  | .error e => .error (.invalid ("invalid timestamp " ++ ts ++ ": " ++ e))

def checkTz : Option String → Except SpecError Unit
  | none => .ok ()
  | some tz => if cal.knownTz tz then .ok () else .error (.invalid ("unknown timezone: " ++ tz))

def parseCron (expr : String) : Except SpecError String := do
  let normalized ← normalizeCron expr
  match cal.cronError normalized with
  | none => .ok normalized
  | some e => .error (.invalid ("invalid cron expression: " ++ e))

def checkEvery (secs : Nat) : Except SpecError Unit :=
  if minEverySecs ≤ secs ∧ secs ≤ maxEverySecs then .ok ()
  else .error (.invalid ("every.secs must be " ++ toString minEverySecs ++ "..=" ++
    toString maxEverySecs ++ ", got " ++ toString secs))

/-- `validate`: a spec, with no time computed. -/
def validate : ScheduleSpec → Except SpecError Unit
  | .cron expr tz => do
    checkTz cal tz
    let _ ← parseCron cal expr
    .ok ()
  | .every secs => checkEvery secs
  | .atTs ts => do
    let _ ← parseIso cal ts
    .ok ()

/-- `validate_at_time`: a one-shot may lie 60 seconds back. -/
def validateAtTime (spec : ScheduleSpec) (now : Instant) : Except SpecError Unit :=
  match spec with
  | .atTs ts => do
    let t ← parseIso cal ts
    if t < now.minus 60 then .error .pastAt else .ok ()
  | _ => .ok ()

/-- `next_fire`: the next slot strictly after an instant. -/
def nextFire (spec : ScheduleSpec) (after : Instant) : Except SpecError (Option Instant) :=
  match spec with
  | .cron expr tz => do
    checkTz cal tz
    let normalized ← parseCron cal expr
    .ok (cal.cronAfter normalized (tz.getD "UTC") after)
  | .every secs => do
    checkEvery secs
    .ok (some (after.plus secs))
  | .atTs ts => do
    let t ← parseIso cal ts
    .ok (if after < t then some t else none)

/-- `initial_fire`: a one-shot that lies back within the allowance runs now. -/
def initialFire (spec : ScheduleSpec) (now : Instant) : Except SpecError (Option Instant) := do
  validateAtTime cal spec now
  match spec with
  | .atTs ts => do
    let t ← parseIso cal ts
    .ok (some (max t now))
  | _ => nextFire cal spec now

variable {cal}

theorem parse_fmt_iff {t read : Instant} : cal.parse (cal.fmt t) = .ok read ↔ t.Writable ∧ read = t.whole := by
  by_cases near : t.Writable
  · rw [cal.parse_fmt t near, Except.ok.injEq]
    exact ⟨fun same => ⟨near, same.symm⟩, fun both => both.2.symm⟩
  · exact ⟨fun reads => absurd reads (cal.parse_fmt_far t near read), fun both => absurd both.1 near⟩

theorem checkEvery_ok {secs : Nat} (valid : checkEvery secs = .ok ()) : 60 ≤ secs ∧ secs ≤ 86_400 := by
  unfold checkEvery at valid
  split at valid
  next bounds => exact bounds
  next => exact nomatch valid

/-- Everything `next_fire` can answer. -/
theorem nextFire_cases {spec : ScheduleSpec} {after : Instant} {next : Option Instant}
    (answers : nextFire cal spec after = .ok next) :
    (∃ expr tz normalized, spec = .cron expr tz ∧ next = cal.cronAfter normalized (tz.getD "UTC") after) ∨
    (∃ secs, spec = .every secs ∧ 60 ≤ secs ∧ next = some (after.plus secs)) ∨
    ∃ ts t, spec = .atTs ts ∧ cal.parse ts = .ok t ∧ next = if after < t then some t else none := by
  cases spec with
  | cron expr tz =>
    simp only [nextFire, bind, Except.bind] at answers
    split at answers
    · exact nomatch answers
    split at answers
    · exact nomatch answers
    next normalized _ => exact .inl ⟨expr, tz, normalized, rfl, (Except.ok.inj answers).symm⟩
  | every secs =>
    simp only [nextFire, bind, Except.bind] at answers
    split at answers
    · exact nomatch answers
    next valid =>
      exact .inr (.inl ⟨secs, rfl, (checkEvery_ok valid).1, (Except.ok.inj answers).symm⟩)
  | atTs ts =>
    simp only [nextFire, parseIso, bind, Except.bind] at answers
    cases read : cal.parse ts with
    | error e => simp [read] at answers
    | ok t =>
      simp only [read, Except.ok.injEq] at answers
      exact .inr (.inr ⟨ts, t, rfl, read, answers.symm⟩)

/-- What keeps the text of the next slot, computed at `now`, past the slot that is firing: a one-shot
that is still ahead lies in a later second, and the year has four digits. -/
def ScheduleSpec.MovesOn (cal : Calendar) (slot now : Instant) : ScheduleSpec → Prop
  | .cron _ _ => True
  | .every secs => (now.plus secs).Writable
  | .atTs ts => ∀ t, cal.parse ts = .ok t → now < t → slot < t.whole ∧ t.Writable

def LaterSlot (cal : Calendar) (slot : Instant) (stored : Option String) : Prop :=
  ∀ text, stored = some text → ∃ next, cal.parse text = .ok next ∧ slot < next

theorem nextFire_later_iff {spec : ScheduleSpec} {slot now : Instant} {next : Option Instant}
    (due : slot ≤ now) (answers : nextFire cal spec now = .ok next) :
    LaterSlot cal slot (next.map cal.fmt) ↔ spec.MovesOn cal slot now := by
  have written : ∀ t, next = some t →
      (LaterSlot cal slot (next.map cal.fmt) ↔ t.Writable ∧ slot < t.whole) := by
    rintro t rfl
    simp [LaterSlot, parse_fmt_iff, and_assoc]
  obtain ⟨expr, tz, normalized, rfl, found⟩ | ⟨secs, rfl, long, rfl⟩ | ⟨ts, t, rfl, read, found⟩ :=
    nextFire_cases answers
  · refine iff_of_true ?_ trivial
    cases shape : next with
    | none => simp [LaterSlot]
    | some t =>
      obtain ⟨later, even, near⟩ := cal.cronAfter_later _ _ _ _ (found.symm.trans shape)
      rw [← shape, written t shape, Instant.whole_of_nanos even]
      exact ⟨near, due.trans_lt later⟩
  · rw [written _ rfl]
    have later := due.trans_lt (now.lt_whole_plus (n := secs) (by omega))
    exact ⟨fun both => both.1, fun near => ⟨near, later⟩⟩
  · by_cases ahead : now < t
    · rw [if_pos ahead] at found
      rw [written t found]
      constructor
      · rintro ⟨near, later⟩ t' read' -
        obtain rfl : t = t' := Except.ok.inj (read.symm.trans read')
        exact ⟨later, near⟩
      · intro moves
        exact (moves t read ahead).symm
    · rw [if_neg ahead] at found
      subst found
      refine iff_of_true (by simp [LaterSlot]) ?_
      intro t' read' ahead'
      obtain rfl : t = t' := Except.ok.inj (read.symm.trans read')
      exact absurd ahead' ahead

section TwoDays

/-- A number of seconds in unary, signed, and marked in a leap second. -/
def unary (t : Instant) : String :=
  String.ofList ((if t.nanos < 1_000_000_000 then if 0 ≤ t.secs then 'p' else 'n'
    else if 0 ≤ t.secs then 'P' else 'N') :: List.replicate t.secs.natAbs 'x')

def readUnary : List Char → Except String Instant
  | 'p' :: digits => .ok ⟨digits.length, 0, .inl (by decide)⟩
  | 'n' :: digits => .ok ⟨-digits.length, 0, .inl (by decide)⟩
  | 'P' :: digits =>
    if last : (digits.length : Int) % 60 = 59 then .ok ⟨digits.length, 1_000_000_000, .inr ⟨by decide, last⟩⟩
    else .error "premature end of input"
  | 'N' :: digits =>
    if last : -(digits.length : Int) % 60 = 59 then .ok ⟨-digits.length, 1_000_000_000, .inr ⟨by decide, last⟩⟩
    else .error "premature end of input"
  | _ => .error "premature end of input"

theorem readUnary_unary (t : Instant) : readUnary (unary t).toList = .ok t.whole := by
  obtain ⟨secs, nanos, inSecond⟩ := t
  simp only [unary, String.toList_ofList, Instant.whole]
  by_cases leap : nanos < 1_000_000_000
  · have even : nanos - nanos % 1_000_000_000 = 0 := by omega
    by_cases positive : 0 ≤ secs
    · have same : (secs.natAbs : Int) = secs := by omega
      simp only [leap, positive, if_true, readUnary, List.length_replicate, even, same]
    · have same : -(secs.natAbs : Int) = secs := by omega
      simp only [leap, positive, if_true, if_false, readUnary, List.length_replicate, even, same]
  · have even : nanos - nanos % 1_000_000_000 = 1_000_000_000 := by omega
    have last : secs % 60 = 59 := (inSecond.resolve_left leap).2
    by_cases positive : 0 ≤ secs
    · have same : (secs.natAbs : Int) = secs := by omega
      simp only [leap, positive, if_true, if_false, readUnary, List.length_replicate, even, same, last,
        dif_pos]
    · have same : -(secs.natAbs : Int) = secs := by omega
      simp only [leap, positive, if_false, readUnary, List.length_replicate, even, same, last, dif_pos]

theorem unary_head (t : Instant) : (unary t).toList.head? ≠ some '2' := by
  simp only [unary, String.toList_ofList, List.head?_cons, ne_eq, Option.some.injEq]
  split <;> split <;> decide

def dayStart : Int := 1_784_851_200

def digit (n : Nat) : Char := Char.ofNat (48 + n)

def digitValue (c : Char) : Nat := c.toNat - 48

theorem digitValue_digit : ∀ n < 10, digitValue (digit n) = n := by decide

/-- The time `n` seconds into 2026-07-24, or into the day after it. -/
def clockText (n : Nat) : List Char :=
  let hour := n / 3600 % 24
  let minute := n / 60 % 60
  let second := n % 60
  ['2', '0', '2', '6', '-', '0', '7', '-', '2', digit (4 + n / 86_400), 'T', digit (hour / 10), digit (hour % 10),
    ':', digit (minute / 10), digit (minute % 10), ':', digit (second / 10), digit (second % 10), 'Z']

def clockValue (d h h' m m' s s' : Char) : Nat :=
  (digitValue d - 4) * 86_400 + (digitValue h * 10 + digitValue h') * 3600 +
    (digitValue m * 10 + digitValue m') * 60 + digitValue s * 10 + digitValue s'

def readClock : List Char → Except String Instant
  | ['2', '0', '2', '6', '-', '0', '7', '-', '2', d, 'T', h, h', ':', m, m', ':', s, s', 'Z'] =>
    .ok ⟨dayStart + clockValue d h h' m m' s s', 0, .inl (by decide)⟩
  | ['2', '0', '2', '6', '-', '0', '7', '-', '2', d, 'T', h, h', ':', m, m', ':', s, s', '.', f, f', f'', 'Z'] =>
    .ok ⟨dayStart + clockValue d h h' m m' s s',
      (digitValue f * 100 + digitValue f' * 10 + digitValue f'') % 1000 * 1_000_000, by omega⟩
  | _ => .error "premature end of input"

theorem readClock_clockText {n : Nat} (early : n < 172_800) :
    readClock (clockText n) = .ok ⟨dayStart + n, 0, .inl (by decide)⟩ := by
  have value : clockValue (digit (4 + n / 86_400)) (digit (n / 3600 % 24 / 10)) (digit (n / 3600 % 24 % 10))
      (digit (n / 60 % 60 / 10)) (digit (n / 60 % 60 % 10)) (digit (n % 60 / 10)) (digit (n % 60 % 10)) = n := by
    rw [clockValue, digitValue_digit _ (by omega), digitValue_digit _ (by omega), digitValue_digit _ (by omega),
      digitValue_digit _ (by omega), digitValue_digit _ (by omega), digitValue_digit _ (by omega),
      digitValue_digit _ (by omega)]
    omega
  have read : readClock (clockText n) = .ok ⟨dayStart + clockValue (digit (4 + n / 86_400)) (digit (n / 3600 % 24 / 10))
      (digit (n / 3600 % 24 % 10)) (digit (n / 60 % 60 / 10)) (digit (n / 60 % 60 % 10)) (digit (n % 60 / 10))
      (digit (n % 60 % 10)), 0, .inl (by decide)⟩ := rfl
  rw [read, Except.ok.injEq, Instant.mk.injEq, value]
  exact ⟨rfl, rfl⟩

def sampleCalendar : Calendar where
  fmt t :=
    if dayStart ≤ t.secs ∧ t.secs < dayStart + 172_800 ∧ t.nanos < 1_000_000_000 then
      String.ofList (clockText (t.secs - dayStart).toNat)
    else if t.Writable then unary t else ""
  parse text := if text.toList.head? = some '2' then readClock text.toList else readUnary text.toList
  parse_fmt t near := by
    by_cases here : dayStart ≤ t.secs ∧ t.secs < dayStart + 172_800 ∧ t.nanos < 1_000_000_000
    · have early : (t.secs - dayStart).toNat < 172_800 := by omega
      have back : dayStart + ((t.secs - dayStart).toNat : Int) = t.secs := by omega
      have dated : (clockText (t.secs - dayStart).toNat).head? = some '2' := rfl
      rw [if_pos here, String.toList_ofList, if_pos dated, readClock_clockText early]
      simp only [Instant.whole, Except.ok.injEq, Instant.mk.injEq]
      exact ⟨back, by omega⟩
    · rw [if_neg here, if_pos near, if_neg (unary_head t), readUnary_unary]
  parse_fmt_far t far read := by
    have there : ¬ (dayStart ≤ t.secs ∧ t.secs < dayStart + 172_800 ∧ t.nanos < 1_000_000_000) := by
      intro here
      unfold dayStart at here
      exact far ⟨by omega, by omega⟩
    rw [if_neg there, if_neg far]
    exact nofun
  knownTz := fun _ => false
  cronError := fun _ => some "unsupported"
  cronAfter := fun _ _ _ => none
  cronAfter_later := by simp

end TwoDays

end Agent24.Scheduler
