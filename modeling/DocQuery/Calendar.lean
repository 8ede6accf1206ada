/-! Dates of the proleptic Gregorian calendar and their day numbers, counted from 1970-01-01. Day
numbers and valid dates correspond one to one. -/
namespace DocQuery

structure Date where
  year : Int
  month : Nat
  day : Nat
  deriving DecidableEq

namespace Date

def isLeap (year : Int) : Bool :=
  decide (year % 4 = 0) && (decide (year % 100 ≠ 0) || decide (year % 400 = 0))

def monthLength (year : Int) (month : Nat) : Nat :=
  if month = 2 then if isLeap year then 29 else 28
  else if month = 4 ∨ month = 6 ∨ month = 9 ∨ month = 11 then 30
  else 31

def isValid (d : Date) : Bool :=
  decide (1 ≤ d.month) && decide (d.month ≤ 12) && decide (1 ≤ d.day) &&
    decide (d.day ≤ monthLength d.year d.month)

/-- Days from 1 March of the year 0 to 1 March of a year. -/
def yearStart (year : Int) : Int := 365 * year + year / 4 - year / 100 + year / 400

/-- Days from 1 March to the first of the month that comes `month` months later. -/
def monthStart (month : Int) : Int := (153 * month + 2) / 5

/-- The month that holds a day of the year. -/
def monthAt (dayOfYear : Int) : Int := (5 * dayOfYear + 2) / 153

/-- The day number of 1 March of the year 0. -/
def origin : Int := -719468

/-- The year that began with the last March, so that a leap day ends its year. -/
def marchYear (d : Date) : Int := if d.month ≤ 2 then d.year - 1 else d.year

/-- Months since that March. -/
def marchMonth (d : Date) : Int := if d.month ≤ 2 then d.month + 9 else d.month - 3

/-- The date of a day of the month `month` months after the March of a year. -/
def ofMarch (year month : Int) (day : Nat) : Date :=
  if month < 10 then ⟨year, (month + 3).toNat, day⟩ else ⟨year + 1, (month - 9).toNat, day⟩

def toDays (d : Date) : Int :=
  origin + yearStart d.marchYear + monthStart d.marchMonth + (d.day - 1)

/-- The year from March to March of a day counted from 1 March of the year 0. A year lasts
146097 / 400 days on average, so the quotient is off by at most one. -/
def yearAt (day : Int) : Int :=
  let guess := 400 * day / 146097
  if day < yearStart guess then guess - 1
  else if yearStart (guess + 1) ≤ day then guess + 1
  else guess

def ofDays (n : Int) : Date :=
  let year := yearAt (n - origin)
  let dayOfYear := n - origin - yearStart year
  let month := monthAt dayOfYear
  ofMarch year month (dayOfYear - monthStart month + 1).toNat

theorem yearStart_succ (y : Int) :
    yearStart y + 365 ≤ yearStart (y + 1) ∧ yearStart (y + 1) ≤ yearStart y + 366 := by
  unfold yearStart
  omega

theorem yearStart_mono {y z : Int} (h : y ≤ z) : yearStart y ≤ yearStart z := by
  obtain ⟨k, rfl⟩ := Int.le.dest h
  induction k with
  | zero => simp
  | succ k ih =>
    have := yearStart_succ (y + k)
    have := ih (by omega)
    rw [show y + ((k + 1 : Nat) : Int) = y + k + 1 by omega]
    omega

/-- The year found is the one that holds the day. -/
theorem yearStart_yearAt (day : Int) :
    yearStart (yearAt day) ≤ day ∧ day < yearStart (yearAt day + 1) := by
  unfold yearAt
  simp only
  split
  · next h =>
    refine ⟨by unfold yearStart; omega, ?_⟩
    rwa [show 400 * day / 146097 - 1 + 1 = 400 * day / 146097 by omega]
  · split
    · next h => exact ⟨h, by unfold yearStart; omega⟩
    · next h1 h2 => exact ⟨by omega, by omega⟩

theorem yearAt_eq {day y : Int} (h : yearStart y ≤ day) (h' : day < yearStart (y + 1)) :
    yearAt day = y := by
  obtain ⟨a, b⟩ := yearStart_yearAt day
  rcases Int.lt_trichotomy (yearAt day) y with hlt | heq | hgt
  · have := yearStart_mono (show yearAt day + 1 ≤ y by omega)
    omega
  · exact heq
  · have := yearStart_mono (show y + 1 ≤ yearAt day by omega)
    omega

theorem toDays_ofMarch {year month : Int} (day : Nat) (h : 0 ≤ month) (h' : month < 12) :
    (ofMarch year month day).toDays = origin + yearStart year + monthStart month + (day - 1) := by
  unfold ofMarch
  split
  · next hm =>
    have : ¬ (month + 3).toNat ≤ 2 := by omega
    simp only [toDays, marchYear, marchMonth, this, if_false]
    rw [show ((month + 3).toNat : Int) - 3 = month by omega]
  · next hm =>
    have : (month - 9).toNat ≤ 2 := by omega
    simp only [toDays, marchYear, marchMonth, this, if_true]
    rw [show ((month - 9).toNat : Int) + 9 = month by omega, Int.add_sub_cancel]

/-- Each day number belongs to the date that it is turned into. -/
theorem toDays_ofDays (n : Int) : (ofDays n).toDays = n := by
  obtain ⟨a, b⟩ := yearStart_yearAt (n - origin)
  have c := yearStart_succ (yearAt (n - origin))
  unfold ofDays
  simp only
  rw [toDays_ofMarch _ (by unfold monthAt; omega) (by unfold monthAt; omega)]
  unfold monthStart monthAt
  omega

/-- The month and the day of the month of a day of the year. -/
theorem monthAt_monthStart {month day : Int} (h1 : 0 ≤ day)
    (h2 : monthStart month + day < monthStart (month + 1)) :
    monthAt (monthStart month + day) = month := by
  unfold monthStart monthAt at *
  omega

theorem isValid_iff (d : Date) : d.isValid = true ↔
    1 ≤ d.month ∧ d.month ≤ 12 ∧ 1 ≤ d.day ∧ d.day ≤ monthLength d.year d.month := by
  simp [isValid, and_assoc]

theorem isLeap_iff (year : Int) :
    isLeap year = true ↔ year % 4 = 0 ∧ (year % 100 ≠ 0 ∨ year % 400 = 0) := by
  simp [isLeap]

/-- The days of a month lie within its part of the year that begins in March. -/
theorem day_bounds {d : Date} (h : d.isValid = true) :
    0 ≤ d.marchMonth ∧ d.marchMonth < 12 ∧
      monthStart d.marchMonth + (d.day - 1) < monthStart (d.marchMonth + 1) ∧
      yearStart d.marchYear + monthStart d.marchMonth + (d.day - 1) < yearStart (d.marchYear + 1) := by
  obtain ⟨h1, h2, h3, h4⟩ := (isValid_iff d).1 h
  unfold monthLength at h4
  by_cases hm : d.month = 2
  · rw [if_pos hm] at h4
    have hl := isLeap_iff d.year
    simp only [marchMonth, marchYear, hm, show (2 : Nat) ≤ 2 from Nat.le_refl 2, if_true]
    unfold monthStart yearStart
    split at h4
    · next hy =>
      have := hl.1 hy
      omega
    · next hy =>
      have := mt hl.2 hy
      omega
  · rw [if_neg hm] at h4
    have hy := yearStart_succ d.marchYear
    have hk : 0 ≤ d.marchMonth ∧ d.marchMonth < 11 := by
      unfold marchMonth
      split <;> omega
    have hs : (d.day : Int) - 1 < monthStart (d.marchMonth + 1) - monthStart d.marchMonth := by
      unfold monthStart marchMonth
      generalize d.month = k at h1 h2 h4 hm ⊢
      rcases (by omega : k = 1 ∨ k = 3 ∨ k = 4 ∨ k = 5 ∨ k = 6 ∨ k = 7 ∨ k = 8 ∨ k = 9 ∨ k = 10 ∨
        k = 11 ∨ k = 12) with rfl | rfl | rfl | rfl | rfl | rfl | rfl | rfl | rfl | rfl | rfl <;>
        simp at h4 ⊢ <;> omega
    have : monthStart (d.marchMonth + 1) ≤ 337 := by
      unfold monthStart
      omega
    omega

/-- Each date is the one that its day number is turned into. -/
theorem ofDays_toDays {d : Date} (h : d.isValid = true) : ofDays d.toDays = d := by
  obtain ⟨h0, h1, h2, h3⟩ := day_bounds h
  obtain ⟨g1, g2, g3, -⟩ := (isValid_iff d).1 h
  have hs : 0 ≤ monthStart d.marchMonth := by
    unfold monthStart
    omega
  have hd : d.toDays - origin = yearStart d.marchYear + monthStart d.marchMonth + (d.day - 1) := by
    unfold toDays
    omega
  have hy : yearAt (d.toDays - origin) = d.marchYear := yearAt_eq (by omega) (by omega)
  have hm : monthAt (d.toDays - origin - yearStart d.marchYear) = d.marchMonth := by
    rw [hd, show yearStart d.marchYear + monthStart d.marchMonth + ((d.day : Int) - 1) -
      yearStart d.marchYear = monthStart d.marchMonth + (d.day - 1) by omega]
    exact monthAt_monthStart (by omega) h2
  unfold ofDays
  simp only
  rw [hy, hm, show (d.toDays - origin - yearStart d.marchYear - monthStart d.marchMonth + 1).toNat =
    d.day by omega]
  clear hs hd hy hm h0 h1 h2 h3
  obtain ⟨year, month, day⟩ := d
  simp only at g1 g2
  simp only [ofMarch, marchYear, marchMonth]
  by_cases hmo : month ≤ 2
  · rw [if_pos hmo, if_pos hmo, if_neg (by omega)]
    rw [Int.sub_add_cancel]
    congr
    omega
  · rw [if_neg hmo, if_neg hmo, if_pos (by omega)]
    congr
    omega

end Date

end DocQuery
