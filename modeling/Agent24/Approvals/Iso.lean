import Agent24.Library.Calendar
import Agent24.Library.Padded

/-! UTC timestamps of whole seconds: what the text says, and that texts are in the order of time. -/

set_option autoImplicit false
namespace Agent24.Approvals
open Library Calendar Padded

/-- A date and a time of day as `YYYY-MM-DDTHH:MM:SSZ`; no year here is negative. -/
def stamp (date : Date) (h m s : Nat) : String :=
  String.ofList (padded 4 date.year.toNat ++ '-' :: (padded 2 date.month.toNat ++ '-' :: (padded 2 date.day.toNat ++
    'T' :: (padded 2 h ++ ':' :: (padded 2 m ++ ':' :: (padded 2 s ++ ['Z']))))))

def iso8601At (secs : Nat) : String :=
  let days : Int := (secs / 86400 : Nat)
  let rem := secs % 86400
  let h := rem / 3600
  let m := rem % 3600 / 60
  let s := rem % 60
  let z := days + 719468
  let era := z / 146097
  let doe := z % 146097
  let yoe := (doe - doe / 1460 + doe / 36524 - doe / 146096) / 365
  let y := yoe + era * 400
  let doy := doe - (365 * yoe + yoe / 4 - yoe / 100)
  let mp := (5 * doy + 2) / 153
  let d := doy - (153 * mp + 2) / 5 + 1
  let mo := if mp < 10 then mp + 3 else mp - 9
  let y := if mo ≤ 2 then y + 1 else y
  stamp ⟨y, mo, d⟩ h m s

section
variable (instant : Int)

/-- The date and the time of day in UTC, `instant` seconds from the start of 1970. -/
structure Shows (date : Date) (h m s : Nat) : Prop where
  falls : ∃ day, Falls day date ∧ instant = 86400 * day + 3600 * h + 60 * m + s
  hour : h < 24
  minute : m < 60
  second : s < 60

def dateAt : Date := dateOf (instant / 86400)

def utcText : String :=
  stamp (dateAt instant) (instant % 86400 / 3600).toNat (instant % 3600 / 60).toNat (instant % 60).toNat

theorem clock_fields : ∃ h m s : Nat, (instant % 86400 / 3600).toNat = h ∧
    (instant % 3600 / 60).toNat = m ∧ (instant % 60).toNat = s ∧ h < 24 ∧ m < 60 ∧ s < 60 ∧
    instant % 86400 = 3600 * h + 60 * m + s := by
  have hours := Int.emod_nonneg instant (show (86400 : Int) ≠ 0 by decide)
  have early := Int.emod_lt_of_pos instant (show (0 : Int) < 86400 by decide)
  have minutes : instant % 3600 = instant % 86400 % 3600 := (Int.emod_emod_of_dvd instant (by decide)).symm
  have seconds : instant % 60 = instant % 86400 % 60 := (Int.emod_emod_of_dvd instant (by decide)).symm
  rw [minutes, seconds]
  generalize instant % 86400 = rest at hours early
  exact ⟨_, _, _, rfl, rfl, rfl, by omega, by omega, by omega, by omega⟩

theorem shows_utc :
    Shows instant (dateAt instant) (instant % 86400 / 3600).toNat (instant % 3600 / 60).toNat
        (instant % 60).toNat := by
  obtain ⟨h, m, s, hour, minute, second, small, small', small'', clock⟩ := clock_fields instant
  rw [hour, minute, second]
  exact ⟨⟨instant / 86400, falls_iff.mpr rfl, by omega⟩, small, small', small''⟩

end

theorem Shows.date_eq {instant : Int} {date : Date} {h m s : Nat} (shows_ : Shows instant date h m s) :
    date = dateAt instant := by
  obtain ⟨day, falls, same⟩ := shows_.falls
  have bounds := And.intro shows_.hour (And.intro shows_.minute shows_.second)
  have day_ : instant / 86400 = day := by omega
  rw [dateAt, day_]
  exact falls_iff.mp falls

theorem Shows.stamp_eq {instant : Int} {date : Date} {h m s : Nat} (shows_ : Shows instant date h m s) :
    stamp date h m s = utcText instant := by
  obtain ⟨day, falls, same⟩ := shows_.falls
  have bounds := And.intro shows_.hour (And.intro shows_.minute shows_.second)
  have hour : h = (instant % 86400 / 3600).toNat := by omega
  have minute : m = (instant % 3600 / 60).toNat := by omega
  have second : s = (instant % 60).toNat := by omega
  rw [utcText, ← shows_.date_eq, ← hour, ← minute, ← second]

theorem iso8601At_eq (secs : Nat) : iso8601At secs = utcText secs := by
  have date : dateOf ((secs / 86400 : Nat) : Int) = dateAt secs := by
    rfl
  have hour : ((secs : Int) % 86400 / 3600).toNat = secs % 86400 / 3600 := by omega
  have minute : ((secs : Int) % 3600 / 60).toNat = secs % 86400 % 3600 / 60 := by omega
  have second : ((secs : Int) % 60).toNat = secs % 86400 % 60 := by omega
  have shown : iso8601At secs = stamp (dateOf ((secs / 86400 : Nat) : Int)) (secs % 86400 / 3600)
      (secs % 86400 % 3600 / 60) (secs % 86400 % 60) := rfl
  rw [shown, utcText, ← date, hour, minute, second]

theorem field_lt {width m n : Nat} (mfits : m < 10 ^ (width + 1)) (nfits : n < 10 ^ (width + 1)) {c : Char}
    {r s : List Char} (less : m < n ∨ m = n ∧ r < s) :
    padded (width + 1) m ++ c :: r < padded (width + 1) n ++ c :: s :=
  padded_append_lt mfits nfits (less.imp_right fun later =>
    ⟨later.1, List.cons_lt_cons_iff.mpr (.inr ⟨rfl, later.2⟩)⟩)

theorem utcText_lt {a b : Int} (less : a < b) (low : 0 ≤ (dateAt a).year) (high : (dateAt b).year ≤ 9999) :
    utcText a < utcText b := by
  have valid : (dateAt a).Valid := dateOf_valid _
  have valid' : (dateAt b).Valid := dateOf_valid _
  obtain ⟨⟨m₀', m₁'⟩, d₀', d₁'⟩ := valid'
  have short' := monthDays_le (dateAt b).year (dateAt b).month
  have order : ((dateAt a).year < (dateAt b).year ∨ (dateAt a).year = (dateAt b).year ∧
      ((dateAt a).month < (dateAt b).month ∨ (dateAt a).month = (dateAt b).month ∧
        (dateAt a).day < (dateAt b).day)) ∨
      ((dateAt a).year = (dateAt b).year ∧ (dateAt a).month = (dateAt b).month ∧ (dateAt a).day = (dateAt b).day ∧
        a % 86400 < b % 86400) := by
    rcases (show a / 86400 ≤ b / 86400 by omega).lt_or_eq with earlier | same
    · exact .inl (dateOf_lt earlier)
    have dates : dateAt a = dateAt b := by rw [dateAt, dateAt, same]
    rw [dates]
    exact .inr ⟨rfl, rfl, rfl, by omega⟩
  obtain ⟨h, m, s, hour_, minute_, second_, -, m₂, s₂, clock⟩ := clock_fields a
  obtain ⟨h', m', s', hour_', minute_', second_', h₂, m₂', s₂', clock'⟩ := clock_fields b
  rw [clock, clock'] at order
  rw [utcText, utcText, stamp, stamp, String.lt_iff_toList_lt, String.toList_ofList, String.toList_ofList,
    hour_, minute_, second_, hour_', minute_', second_']
  generalize dateAt a = date at *
  generalize dateAt b = date' at *
  -- field by field: the first that differs is the one that decides the order of time
  refine field_lt (by omega) (by omega) ?_
  by_cases year : date.year < date'.year
  · exact .inl (by omega)
  refine .inr ⟨by omega, field_lt (by omega) (by omega) ?_⟩
  by_cases month : date.month < date'.month
  · exact .inl (by omega)
  refine .inr ⟨by omega, field_lt (by omega) (by omega) ?_⟩
  by_cases day : date.day < date'.day
  · exact .inl (by omega)
  refine .inr ⟨by omega, field_lt (by omega) (by omega) ?_⟩
  by_cases hour : h < h'
  · exact .inl (by omega)
  refine .inr ⟨by omega, field_lt (by omega) (by omega) ?_⟩
  by_cases minute : m < m'
  · exact .inl (by omega)
  exact .inr ⟨by omega, field_lt (by omega) (by omega) (.inl (by omega))⟩

def FourDigits (instant : Int) : Prop := 0 ≤ (dateAt instant).year ∧ (dateAt instant).year ≤ 9999

theorem utcText_lt_iff {a b : Int} (ya : FourDigits a) (yb : FourDigits b) : utcText a < utcText b ↔ a < b := by
  rcases lt_trichotomy a b with less | rfl | more
  · exact iff_of_true (utcText_lt less ya.1 yb.2) less
  · exact iff_of_false (lt_irrefl _) (lt_irrefl _)
  · exact iff_of_false (utcText_lt more yb.1 ya.2).asymm more.asymm

theorem utcText_le_iff {a b : Int} (ya : FourDigits a) (yb : FourDigits b) : utcText a ≤ utcText b ↔ a ≤ b := by
  rw [← not_lt, utcText_lt_iff yb ya, not_lt]

theorem fourDigits_clock {secs : Nat} (year : (dateAt secs).year ≤ 9999) : FourDigits secs := by
  refine ⟨?_, year⟩
  have since : (dateAt 0).year ≤ (dateAt secs).year := year_mono (by omega)
  have epoch : (dateAt 0).year = 1970 := by decide
  omega

end Agent24.Approvals
