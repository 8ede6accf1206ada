import DocQuery.Calendar
import Mathlib.Data.Int.Init
import Mathlib.Tactic.IntervalCases

/-! Day numbers as the count of the days that passed: the lengths of the years and of the months
before a date add up to its day number, and later dates have larger ones. -/
namespace DocQuery.Date

def yearLength (year : Int) : Nat := if isLeap year then 366 else 365

/-- Days of a number of years, one after the other. -/
def daysOfYears (first : Int) : Nat → Nat
  | 0 => 0
  | count + 1 => daysOfYears first count + yearLength (first + count)

/-- Days from 1 January 1970 to 1 January of a year, negative for the years before. -/
def daysBeforeYear (year : Int) : Int :=
  daysOfYears 1970 (year - 1970).toNat - daysOfYears year (1970 - year).toNat

/-- Days from 1 January to the first of a month. -/
def daysBeforeMonth (year : Int) : Nat → Nat
  | 0 | 1 => 0
  | month + 2 => daysBeforeMonth year (month + 1) + monthLength year (month + 1)

def daysSinceEpoch (d : Date) : Int :=
  daysBeforeYear d.year + daysBeforeMonth d.year d.month + (d.day - 1)

theorem daysOfYears_first (first : Int) (count : Nat) :
    daysOfYears first (count + 1) = yearLength first + daysOfYears (first + 1) count := by
  induction count with
  | zero => simp [daysOfYears]
  | succ count ih =>
    rw [daysOfYears, ih, daysOfYears, show first + 1 + (count : Int) = first + (count + 1 : Nat) by omega]
    omega

theorem daysBeforeYear_succ (year : Int) :
    daysBeforeYear (year + 1) = daysBeforeYear year + yearLength year := by
  unfold daysBeforeYear
  by_cases h : 1970 ≤ year
  · have hcount : (year + 1 - 1970).toNat = (year - 1970).toNat + 1 := by omega
    have hyear : 1970 + ((year - 1970).toNat : Int) = year := by omega
    rw [hcount, daysOfYears, hyear, show (1970 - year).toNat = 0 by omega,
      show (1970 - (year + 1)).toNat = 0 by omega, daysOfYears, daysOfYears]
    omega
  · have hcount : (1970 - year).toNat = (1970 - (year + 1)).toNat + 1 := by omega
    rw [hcount, daysOfYears_first, show (year - 1970).toNat = 0 by omega,
      show (year + 1 - 1970).toNat = 0 by omega, daysOfYears]
    omega

/-- The leap day of a year lies between the March before it and its own. -/
theorem yearLength_eq (year : Int) :
    (yearLength year : Int) = yearStart year - yearStart (year - 1) := by
  have h := isLeap_iff year
  unfold yearLength yearStart
  split
  · next hy =>
    have := h.1 hy
    omega
  · next hy =>
    have := mt h.2 hy
    omega

/-- A year begins 306 days after the last March. -/
theorem daysBeforeYear_eq (year : Int) :
    daysBeforeYear year = origin + yearStart (year - 1) + 306 := by
  have hstep (y : Int) : yearStart (y + 1 - 1) = yearStart (y - 1) + yearLength y := by
    rw [yearLength_eq, Int.add_sub_cancel]
    omega
  induction year using Int.inductionOn' (b := 1970) with
  | zero => decide
  | succ y _ ih =>
    rw [daysBeforeYear_succ, ih, hstep]
    omega
  | pred y _ ih =>
    have h := daysBeforeYear_succ (y - 1)
    have h' := hstep (y - 1)
    rw [Int.sub_add_cancel] at h h'
    omega

theorem daysBeforeYear_mono {y z : Int} (h : y ≤ z) : daysBeforeYear y ≤ daysBeforeYear z := by
  have := yearStart_mono (show y - 1 ≤ z - 1 by omega)
  rw [daysBeforeYear_eq, daysBeforeYear_eq]
  omega

/-- The days of the years that four digits can write. -/
theorem daysBeforeYear_bounds {year : Int} (h : 0 ≤ year) (h' : year ≤ 9999) :
    -719528 ≤ daysBeforeYear year ∧ daysBeforeYear (year + 1) ≤ 2932897 := by
  have hfirst := daysBeforeYear_mono h
  have hlast := daysBeforeYear_mono (show year + 1 ≤ 10000 by omega)
  rw [daysBeforeYear_eq 0] at hfirst
  rw [daysBeforeYear_eq 10000] at hlast
  simp only [origin, yearStart] at hfirst hlast
  omega

theorem daysBeforeMonth_succ (year : Int) {month : Nat} (h : 1 ≤ month) :
    daysBeforeMonth year (month + 1) = daysBeforeMonth year month + monthLength year month := by
  cases month with
  | zero => omega
  | succ month => rfl

theorem daysBeforeMonth_mono (year : Int) {m n : Nat} (h : m ≤ n) :
    daysBeforeMonth year m ≤ daysBeforeMonth year n := by
  induction h with
  | refl => exact Nat.le_refl _
  | @step n _ ih =>
    cases n with
    | zero => exact ih
    | succ n =>
      rw [daysBeforeMonth]
      omega

/-- January and February belong to the year that began with the last March. -/
theorem daysBeforeMonth_eq (year : Int) {month : Nat} (h : 1 ≤ month) (h' : month ≤ 12) :
    (daysBeforeMonth year month : Int) =
      if month ≤ 2 then monthStart (month + 9) - 306
      else monthStart (month - 3) + yearLength year - 306 := by
  unfold yearLength
  interval_cases month <;> cases hy : isLeap year <;>
    simp [daysBeforeMonth, monthLength, monthStart, hy]

/-- The months of a year add up to it. -/
theorem daysBeforeMonth_last (year : Int) : daysBeforeMonth year 13 = yearLength year := by
  unfold yearLength
  cases hy : isLeap year <;> simp [daysBeforeMonth, monthLength, hy]

/-- Months and days have two digits. -/
theorem lt_of_isValid {d : Date} (h : d.isValid = true) : d.month < 100 ∧ d.day < 100 := by
  obtain ⟨-, h2, -, h4⟩ := (isValid_iff d).1 h
  unfold monthLength at h4
  split at h4
  · split at h4 <;> omega
  · split at h4 <;> omega

/-- The day number of a date is the count of the days before it. -/
theorem toDays_eq_daysSinceEpoch {d : Date} (h : d.isValid = true) : d.toDays = d.daysSinceEpoch := by
  obtain ⟨h1, h2, -, -⟩ := (isValid_iff d).1 h
  unfold toDays daysSinceEpoch marchYear marchMonth
  rw [daysBeforeYear_eq, daysBeforeMonth_eq d.year h1 h2]
  split
  · omega
  · rw [yearLength_eq]
    omega

/-- A date lies within its month, and its month within its year. -/
theorem toDays_bounds {d : Date} (h : d.isValid = true) :
    daysBeforeYear d.year + daysBeforeMonth d.year d.month ≤ d.toDays ∧
      d.toDays < daysBeforeYear d.year + daysBeforeMonth d.year (d.month + 1) ∧
      daysBeforeYear d.year + daysBeforeMonth d.year (d.month + 1) ≤ daysBeforeYear (d.year + 1) := by
  obtain ⟨h1, h2, h3, h4⟩ := (isValid_iff d).1 h
  have hmonth := daysBeforeMonth_succ d.year h1
  have hyear := daysBeforeMonth_mono d.year (show d.month + 1 ≤ 13 by omega)
  rw [daysBeforeMonth_last] at hyear
  rw [toDays_eq_daysSinceEpoch h, daysSinceEpoch, daysBeforeYear_succ]
  omega

/-- The order of dates by year, month and day. -/
def Before (d e : Date) : Prop :=
  d.year < e.year ∨ d.year = e.year ∧ (d.month < e.month ∨ d.month = e.month ∧ d.day < e.day)

theorem Before.toDays_lt {d e : Date} (h : d.Before e) (hd : d.isValid = true)
    (he : e.isValid = true) : d.toDays < e.toDays := by
  obtain ⟨-, hd2, hd3⟩ := toDays_bounds hd
  obtain ⟨he1, -, -⟩ := toDays_bounds he
  rcases h with hyear | ⟨hyear, hmonth | ⟨hmonth, hday⟩⟩
  · have := daysBeforeYear_mono (show d.year + 1 ≤ e.year by omega)
    omega
  · have := daysBeforeMonth_mono d.year (show d.month + 1 ≤ e.month by omega)
    rw [← hyear] at he1
    omega
  · rw [toDays_eq_daysSinceEpoch hd, toDays_eq_daysSinceEpoch he, daysSinceEpoch, daysSinceEpoch,
      hyear, hmonth]
    omega

/-- Dates are in the order of their day numbers. -/
theorem toDays_lt_iff {d e : Date} (hd : d.isValid = true) (he : e.isValid = true) :
    d.toDays < e.toDays ↔ d.Before e := by
  refine ⟨fun hlt => ?_, fun h => h.toDays_lt hd he⟩
  by_contra hnot
  -- The order is total, so the other cases contradict the day numbers.
  have hcases : e.Before d ∨ e = d := by
    obtain ⟨y, m, k⟩ := d
    obtain ⟨y', m', k'⟩ := e
    simp only [Before, mk.injEq] at hnot ⊢
    omega
  rcases hcases with h | rfl
  · have := h.toDays_lt he hd
    omega
  · omega

/-- A day of a month of the year that begins in March is a date; February alone depends on the year. -/
theorem isValid_ofMarch {year month day : Int} (hfirst : 0 ≤ month) (hlast : month < 12)
    (hday : 0 ≤ day) (hlength : day < monthStart (month + 1) - monthStart month)
    (hyear : monthStart month + day < yearLength (year + 1)) :
    (ofMarch year month (day + 1).toNat).isValid = true := by
  rw [isValid_iff]
  unfold ofMarch monthLength
  unfold monthStart at hlength
  by_cases hfeb : month = 11
  · subst hfeb
    unfold yearLength monthStart at hyear
    cases hleap : isLeap (year + 1) <;> simp [hleap] at hyear ⊢ <;> omega
  · have hmonth : month < 11 := by omega
    clear hyear hlast hfeb
    interval_cases month <;> simp at hlength ⊢ <;> omega

theorem isValid_ofDays (n : Int) : (ofDays n).isValid = true := by
  obtain ⟨a, b⟩ := yearStart_yearAt (n - origin)
  have hyear := yearStart_succ (yearAt (n - origin))
  have hlength := yearLength_eq (yearAt (n - origin) + 1)
  rw [Int.add_sub_cancel] at hlength
  unfold ofDays
  simp only
  generalize hk : n - origin - yearStart (yearAt (n - origin)) = k
  have hmonth : 0 ≤ monthAt k ∧ monthAt k < 12 ∧ monthStart (monthAt k) ≤ k ∧
      k < monthStart (monthAt k + 1) := by
    unfold monthStart monthAt
    omega
  obtain ⟨h0, h12, hfirst, hlast⟩ := hmonth
  exact isValid_ofMarch h0 h12 (by omega) (by omega) (by omega)

/-- The years that a day number lies between decide the year of its date. -/
theorem year_ofDays_iff (n year : Int) :
    (ofDays n).year = year ↔ daysBeforeYear year ≤ n ∧ n < daysBeforeYear (year + 1) := by
  obtain ⟨h1, h2, h3⟩ := toDays_bounds (isValid_ofDays n)
  rw [toDays_ofDays] at h1 h2
  constructor
  · rintro rfl
    omega
  · rintro ⟨hle, hlt⟩
    by_contra hne
    rcases Int.lt_or_gt_of_ne hne with h | h
    · have := daysBeforeYear_mono (show (ofDays n).year + 1 ≤ year by omega)
      omega
    · have := daysBeforeYear_mono (show year + 1 ≤ (ofDays n).year by omega)
      omega

end DocQuery.Date
