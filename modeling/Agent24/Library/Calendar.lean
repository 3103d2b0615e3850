import Mathlib.Algebra.Ring.Int.Defs
import Mathlib.Algebra.Ring.Nat
import Mathlib.Order.Lattice

/-! The proleptic Gregorian calendar: dates from one day to the next, and the date of a day number. -/

set_option autoImplicit false
namespace Library.Calendar

structure Date where
  year : Int
  month : Int
  day : Int
  deriving DecidableEq

def isLeap (year : Int) : Bool := decide (year % 4 = 0 ∧ (year % 100 ≠ 0 ∨ year % 400 = 0))

def monthDays (year month : Int) : Int :=
  if month = 2 then (if isLeap year then 29 else 28)
  else if month = 4 ∨ month = 6 ∨ month = 9 ∨ month = 11 then 30
  else 31

structure Date.Valid (d : Date) : Prop where
  month : 1 ≤ d.month ∧ d.month ≤ 12
  day : 1 ≤ d.day ∧ d.day ≤ monthDays d.year d.month

def Date.next (d : Date) : Date :=
  if d.day < monthDays d.year d.month then { d with day := d.day + 1 }
  else if d.month < 12 then ⟨d.year, d.month + 1, 1⟩
  else ⟨d.year + 1, 1, 1⟩

inductive Falls : Int → Date → Prop where
  | epoch : Falls 0 ⟨1970, 1, 1⟩
  | next {n : Int} {d : Date} (falls : Falls n d) : Falls (n + 1) d.next
  | previous {n : Int} {d : Date} (valid : d.Valid) (falls : Falls (n + 1) d.next) : Falls n d

def marchDays (year : Int) : Int := 365 * year + year / 4 - year / 100 + year / 400

def marchLength (year : Int) : Int := if isLeap (year + 1) then 366 else 365

theorem marchDays_succ (year : Int) : marchDays (year + 1) = marchDays year + marchLength year := by
  unfold marchDays marchLength isLeap
  split
  · next leap =>
    have leap := of_decide_eq_true leap
    omega
  · next common =>
    have common := mt decide_eq_true common
    omega

theorem marchLength_bounds (year : Int) : 365 ≤ marchLength year ∧ marchLength year ≤ 366 := by
  unfold marchLength
  split <;> omega

theorem marchDays_mono {a b : Int} (le : a ≤ b) : marchDays a ≤ marchDays b := by
  unfold marchDays
  omega

theorem march_unique {a b s t : Int} (same : marchDays a + s = marchDays b + t) (s₀ : 0 ≤ s) (s₁ : s < marchLength a)
    (t₀ : 0 ≤ t) (t₁ : t < marchLength b) : a = b ∧ s = t := by
  have apart {x y p q : Int} (less : x < y) (inside : p < marchLength x) (start : 0 ≤ q) :
      marchDays x + p < marchDays y + q := by
    have later := marchDays_mono (Int.add_one_le_iff.mpr less)
    rw [marchDays_succ] at later
    omega
  rcases lt_trichotomy a b with less | rfl | more
  · exact absurd same (apart less s₁ t₀).ne
  · exact ⟨rfl, by omega⟩
  · exact absurd same.symm (apart more t₁ s₀).ne

/-- The date of the day `s` of a March year. -/
def marchDate (year s : Int) : Date :=
  let m := (5 * s + 2) / 153
  let month := if m < 10 then m + 3 else m - 9
  ⟨if month ≤ 2 then year + 1 else year, month, s - (153 * m + 2) / 5 + 1⟩

/-- The first day of each month of a March year, and of the one after it. -/
def monthStart (m : Int) : Int := (153 * m + 2) / 5

/-- The day `d` of the month `m` of a March year. -/
def inMonth (year m d : Int) : Date :=
  ⟨if m < 10 then year else year + 1, if m < 10 then m + 3 else m - 9, d + 1⟩

def monthSpan (year m : Int) : Int :=
  if m = 11 then marchLength year - monthStart 11 else monthStart (m + 1) - monthStart m

theorem marchDate_eq (year : Int) {m d : Int} (m₀ : 0 ≤ m) (m₁ : m ≤ 11) (d₀ : 0 ≤ d) (d₁ : d < monthSpan year m) :
    marchDate year (monthStart m + d) = inMonth year m d := by
  have short := marchLength_bounds year
  have month : (5 * (monthStart m + d) + 2) / 153 = m := by
    unfold monthSpan monthStart at *
    split at d₁ <;> omega
  rw [marchDate, inMonth]
  simp only [month, Date.mk.injEq]
  refine ⟨?_, trivial, ?_⟩
  · split <;> split <;> first | rfl | omega
  · unfold monthStart
    omega

theorem exists_month {year s : Int} (s₀ : 0 ≤ s) (s₁ : s < marchLength year) :
    ∃ m d, 0 ≤ m ∧ m ≤ 11 ∧ 0 ≤ d ∧ d < monthSpan year m ∧ s = monthStart m + d := by
  have short := marchLength_bounds year
  refine ⟨(5 * s + 2) / 153, s - monthStart ((5 * s + 2) / 153), by omega, by omega, ?_, ?_, by omega⟩
  · unfold monthStart
    omega
  · unfold monthSpan monthStart
    split <;> omega

theorem monthDays_inMonth (year d : Int) {m : Int} (m₀ : 0 ≤ m) (m₁ : m ≤ 11) :
    monthDays (inMonth year m d).year (inMonth year m d).month = monthSpan year m := by
  have months : m = 0 ∨ m = 1 ∨ m = 2 ∨ m = 3 ∨ m = 4 ∨ m = 5 ∨ m = 6 ∨ m = 7 ∨ m = 8 ∨ m = 9 ∨ m = 10 ∨ m = 11 := by
    omega
  rcases months with rfl | rfl | rfl | rfl | rfl | rfl | rfl | rfl | rfl | rfl | rfl | rfl
  -- every month but February has the same days each year
  case inr.inr.inr.inr.inr.inr.inr.inr.inr.inr.inr =>
    change (if isLeap (year + 1) then (29 : Int) else 28) = (if isLeap (year + 1) then 366 else 365) - 337
    split <;> rfl
  all_goals rfl

theorem inMonth_valid {year m d : Int} (m₀ : 0 ≤ m) (m₁ : m ≤ 11) (d₀ : 0 ≤ d) (d₁ : d < monthSpan year m) :
    (inMonth year m d).Valid := by
  refine ⟨?_, ?_⟩
  · unfold inMonth
    dsimp only
    split <;> omega
  · rw [monthDays_inMonth year d m₀ m₁]
    unfold inMonth
    dsimp only
    omega

theorem next_inMonth {year m d : Int} (m₀ : 0 ≤ m) (m₁ : m ≤ 11) :
    (inMonth year m d).next =
      if d + 1 < monthSpan year m then inMonth year m (d + 1)
      else if m < 11 then inMonth year (m + 1) 0 else inMonth (year + 1) 0 0 := by
  rw [Date.next, monthDays_inMonth year d m₀ m₁]
  refine if_congr Iff.rfl rfl ?_
  have months : m = 0 ∨ m = 1 ∨ m = 2 ∨ m = 3 ∨ m = 4 ∨ m = 5 ∨ m = 6 ∨ m = 7 ∨ m = 8 ∨ m = 9 ∨ m = 10 ∨ m = 11 := by
    omega
  rcases months with rfl | rfl | rfl | rfl | rfl | rfl | rfl | rfl | rfl | rfl | rfl | rfl <;> rfl

theorem marchDate_valid {year s : Int} (s₀ : 0 ≤ s) (s₁ : s < marchLength year) : (marchDate year s).Valid := by
  obtain ⟨m, d, m₀, m₁, d₀, d₁, rfl⟩ := exists_month s₀ s₁
  rw [marchDate_eq year m₀ m₁ d₀ d₁]
  exact inMonth_valid m₀ m₁ d₀ d₁

theorem marchDate_next {year s : Int} (s₀ : 0 ≤ s) (s₁ : s < marchLength year) :
    (marchDate year s).next =
      if s + 1 < marchLength year then marchDate year (s + 1) else marchDate (year + 1) 0 := by
  have short := marchLength_bounds year
  obtain ⟨m, d, m₀, m₁, d₀, d₁, rfl⟩ := exists_month s₀ s₁
  rw [marchDate_eq year m₀ m₁ d₀ d₁, next_inMonth m₀ m₁]
  by_cases inside : d + 1 < monthSpan year m
  · have more : monthStart m + d + 1 < marchLength year := by
      unfold monthSpan at inside
      unfold monthStart at *
      split at inside <;> omega
    rw [if_pos inside, if_pos more, Int.add_assoc, marchDate_eq year m₀ m₁ (by omega) inside]
  · rw [if_neg inside]
    by_cases last : m < 11
    · have start : monthStart m + d + 1 = monthStart (m + 1) + 0 := by
        unfold monthSpan at *
        omega
      have some_ : 0 < monthSpan year (m + 1) := by
        unfold monthSpan monthStart
        split <;> omega
      have more : monthStart (m + 1) + 0 < marchLength year := by
        unfold monthStart
        omega
      rw [if_pos last, start, if_pos more, marchDate_eq year (by omega) (by omega) (by omega) some_]
    · have feb : m = 11 := by omega
      subst feb
      have beyond : ¬ monthStart 11 + d + 1 < marchLength year := by
        unfold monthSpan at inside
        omega
      have zero : monthStart 0 + 0 = 0 := by decide
      have some_ : 0 < monthSpan (year + 1) 0 := by
        unfold monthSpan monthStart
        split <;> omega
      have first := marchDate_eq (year + 1) (m := 0) (d := 0) (by omega) (by omega) (by omega) some_
      rw [zero] at first
      rw [if_neg last, if_neg beyond, first]

/-! ## The date of a day number -/

def yearOfCycle (doe : Int) : Int := (doe - doe / 1460 + doe / 36524 - doe / 146096) / 365

/-- The day of the March year `100 c + 4 q + r` of a cycle. -/
theorem yearOfCycle_eq {c q r s : Int} (c₀ : 0 ≤ c) (c₁ : c ≤ 3) (q₀ : 0 ≤ q) (q₁ : q ≤ 24) (r₀ : 0 ≤ r) (r₁ : r ≤ 3)
    (s₀ : 0 ≤ s) (s₁ : s ≤ 364 ∨ (s = 365 ∧ r = 3 ∧ (q < 24 ∨ c = 3))) :
    yearOfCycle (36524 * c + 1461 * q + 365 * r + s) = 100 * c + 4 * q + r := by
  -- the last day of the cycle is the one that both corrections count
  have corrected : (36524 * c + 1461 * q + 365 * r + s) / 36524 -
      (36524 * c + 1461 * q + 365 * r + s) / 146096 = c := by
    by_cases last : q = 24 ∧ s = 365
    · have c₃ : c = 3 := by omega
      have r₃ : r = 3 := by omega
      rw [c₃, r₃, last.1, last.2]
      decide
    · have inside : 1461 * q + 365 * r + s ≤ 36523 := by omega
      omega
  unfold yearOfCycle
  have once : (24 * c + q + 365 * r + s) / 1460 = 0 ∨ (24 * c + q + 365 * r + s) / 1460 = 1 := by omega
  rcases once with none_ | one <;> omega

theorem exists_cycle_year {doe : Int} (low : 0 ≤ doe) (high : doe < 146097) :
    ∃ year s, 0 ≤ year ∧ year ≤ 399 ∧ 0 ≤ s ∧ s < marchLength year ∧ doe = marchDays year + s ∧
      yearOfCycle doe = year := by
  obtain ⟨c, q, r, s, c₀, c₁, q₀, q₁, r₀, r₁, s₀, s₁, same⟩ : ∃ c q r s : Int, 0 ≤ c ∧ c ≤ 3 ∧ 0 ≤ q ∧ q ≤ 24 ∧
      0 ≤ r ∧ r ≤ 3 ∧ 0 ≤ s ∧ (s ≤ 364 ∨ (s = 365 ∧ r = 3 ∧ (q < 24 ∨ c = 3))) ∧
      doe = 36524 * c + 1461 * q + 365 * r + s := by
    -- the greedy division into centuries, leap cycles and years
    let c := min (doe / 36524) 3
    let q := (doe - 36524 * c) / 1461
    let r := min ((doe - 36524 * c - 1461 * q) / 365) 3
    exact ⟨c, q, r, doe - 36524 * c - 1461 * q - 365 * r, by omega, by omega, by omega, by omega, by omega, by omega,
      by omega, by omega, by omega⟩
  have days : marchDays (100 * c + 4 * q + r) = 36524 * c + 1461 * q + 365 * r := by
    unfold marchDays
    omega
  refine ⟨100 * c + 4 * q + r, s, by omega, by omega, s₀, ?_, by omega, ?_⟩
  · unfold marchLength isLeap
    rcases s₁ with short | ⟨full, last, leap⟩
    · split <;> omega
    have leaps : (100 * c + 4 * q + r + 1) % 4 = 0 ∧
        ((100 * c + 4 * q + r + 1) % 100 ≠ 0 ∨ (100 * c + 4 * q + r + 1) % 400 = 0) := by omega
    rw [if_pos (decide_eq_true leaps)]
    omega
  · rw [same]
    exact yearOfCycle_eq c₀ c₁ q₀ q₁ r₀ r₁ s₀ s₁

def dateOf (n : Int) : Date :=
  let z := n + 719468
  let era := z / 146097
  let doe := z % 146097
  let yoe := yearOfCycle doe
  marchDate (yoe + era * 400) (doe - (365 * yoe + yoe / 4 - yoe / 100))

theorem dateOf_march (n : Int) :
    ∃ year s, 0 ≤ s ∧ s < marchLength year ∧ marchDays year + s = n + 719468 ∧ dateOf n = marchDate year s := by
  obtain ⟨year, s, y₀, y₁, s₀, s₁, same, found⟩ := exists_cycle_year (show 0 ≤ (n + 719468) % 146097 by omega)
      (by omega)
  refine ⟨year + (n + 719468) / 146097 * 400, s, s₀, ?_, ?_, ?_⟩
  · have leaps : isLeap (year + (n + 719468) / 146097 * 400 + 1) = isLeap (year + 1) := by
      unfold isLeap
      rw [decide_eq_decide]
      omega
    rw [marchLength, leaps]
    exact s₁
  · unfold marchDays at *
    omega
  · rw [dateOf, found]
    congr 1
    unfold marchDays at same
    omega

theorem dateOf_valid (n : Int) : (dateOf n).Valid := by
  obtain ⟨year, s, s₀, s₁, -, same⟩ := dateOf_march n
  rw [same]
  exact marchDate_valid s₀ s₁

theorem dateOf_next (n : Int) : dateOf (n + 1) = (dateOf n).next := by
  obtain ⟨year, s, s₀, s₁, here, same⟩ := dateOf_march n
  obtain ⟨year', s', s₀', s₁', here', same'⟩ := dateOf_march (n + 1)
  have some_ := marchLength_bounds (year + 1)
  rw [same, same', marchDate_next s₀ s₁]
  split
  · next inside =>
    obtain ⟨rfl, rfl⟩ := march_unique (a := year') (b := year) (s := s') (t := s + 1) (by omega) s₀' s₁'
        (by omega) inside
    rfl
  · next last =>
    have turn := marchDays_succ year
    obtain ⟨rfl, rfl⟩ := march_unique (a := year') (b := year + 1) (s := s') (t := 0) (by omega) s₀' s₁' (by omega)
      (by omega)
    rfl

theorem monthDays_le (year month : Int) : monthDays year month ≤ 31 := by
  unfold monthDays
  split
  · split <;> decide
  · split <;> decide

theorem next_cases (d : Date) :
    (d.day < monthDays d.year d.month ∧ d.next = ⟨d.year, d.month, d.day + 1⟩) ∨
    (monthDays d.year d.month ≤ d.day ∧ d.month < 12 ∧ d.next = ⟨d.year, d.month + 1, 1⟩) ∨
    (monthDays d.year d.month ≤ d.day ∧ 12 ≤ d.month ∧ d.next = ⟨d.year + 1, 1, 1⟩) := by
  unfold Date.next
  split
  · next inside => exact .inl ⟨inside, rfl⟩
  next last =>
  split
  · next more => exact .inr (.inl ⟨not_lt.mp last, more, rfl⟩)
  · next december => exact .inr (.inr ⟨not_lt.mp last, not_lt.mp december, rfl⟩)

theorem next_injective {d e : Date} (valid : d.Valid) (valid' : e.Valid) (same : d.next = e.next) : d = e := by
  obtain ⟨⟨m₀, m₁⟩, d₀, d₁⟩ := valid
  obtain ⟨⟨m₀', m₁'⟩, d₀', d₁'⟩ := valid'
  obtain ⟨year, month, day⟩ := d
  obtain ⟨year', month', day'⟩ := e
  rcases next_cases ⟨year, month, day⟩ with ⟨here, step⟩ | ⟨here, more, step⟩ | ⟨here, more, step⟩ <;>
    rcases next_cases ⟨year', month', day'⟩ with ⟨here', step'⟩ | ⟨here', more', step'⟩ | ⟨here', more', step'⟩ <;>
    rw [step, step', Date.mk.injEq] at same <;> obtain ⟨years, months, days⟩ := same <;> dsimp only at *
  case inl.inl =>
    rw [Date.mk.injEq]
    omega
  case inr.inl.inr.inl =>
    have month_ : month = month' := by omega
    subst years month_
    rw [Date.mk.injEq]
    omega
  case inr.inr.inr.inr =>
    have year_ : year = year' := by omega
    have month_ : month = month' := by omega
    subst year_ month_
    rw [Date.mk.injEq]
    omega
  all_goals omega

theorem falls_iff {n : Int} {d : Date} : Falls n d ↔ d = dateOf n := by
  constructor
  · intro falls
    induction falls with
    | epoch => decide
    | next falls ih => rw [dateOf_next, ih]
    | @previous n d valid falls ih =>
      rw [dateOf_next] at ih
      exact next_injective valid (dateOf_valid n) ih
  · rintro rfl
    induction n using Int.induction_on with
    | zero => exact .epoch
    | succ n ih =>
      rw [dateOf_next]
      exact ih.next
    | pred n ih =>
      refine .previous (dateOf_valid _) ?_
      rw [← dateOf_next, Int.sub_add_cancel]
      exact ih

def Date.rank (d : Date) : Int := 372 * d.year + 31 * d.month + d.day

theorem rank_next {d : Date} (valid : d.Valid) : d.rank < d.next.rank := by
  obtain ⟨⟨m₀, m₁⟩, d₀, d₁⟩ := valid
  have short := monthDays_le d.year d.month
  rcases next_cases d with ⟨-, step⟩ | ⟨-, -, step⟩ |
      ⟨-, -, step⟩ <;> rw [step] <;> unfold Date.rank <;> dsimp only <;>
    omega

theorem rank_lt {a b : Int} (less : a < b) : (dateOf a).rank < (dateOf b).rank := by
  have mono : StrictMono fun n : Int => (dateOf n).rank := strictMono_int_of_lt_succ fun n => by
    rw [dateOf_next]
    exact rank_next (dateOf_valid n)
  exact mono less

theorem dateOf_lt {a b : Int} (less : a < b) :
    (dateOf a).year < (dateOf b).year ∨ (dateOf a).year = (dateOf b).year ∧
      ((dateOf a).month < (dateOf b).month ∨ (dateOf a).month = (dateOf b).month ∧ (dateOf a).day <
          (dateOf b).day) := by
  have grows := rank_lt less
  obtain ⟨⟨m₀, m₁⟩, d₀, d₁⟩ := dateOf_valid a
  obtain ⟨⟨m₀', m₁'⟩, d₀', d₁'⟩ := dateOf_valid b
  have short' := monthDays_le (dateOf b).year (dateOf b).month
  unfold Date.rank at grows
  omega

theorem year_mono {a b : Int} (le : a ≤ b) : (dateOf a).year ≤ (dateOf b).year := by
  rcases le.lt_or_eq with less | rfl
  · have order := dateOf_lt less
    omega
  · exact le_rfl

end Library.Calendar
