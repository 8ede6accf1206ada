import DocQuery.Proofs.Timestamp.Rfc3339

/-! The canonical text of an instant. Where the year has four digits the text is a spelling that
reads back, and texts are ordered as their instants are. -/
namespace DocQuery.Timestamp

open Rfc3339

def date (t : Timestamp) : Date := Date.ofDays (t.minute / 1440)

theorem toDays_date (t : Timestamp) : t.date.toDays = t.minute / 1440 := Date.toDays_ofDays _

theorem isValid_date (t : Timestamp) : t.date.isValid = true := Date.isValid_ofDays _

/-- The local time of UTC. -/
def clock (t : Timestamp) : Clock :=
  ⟨(t.minute % 1440).toNat / 60, (t.minute % 1440).toNat % 60, t.second⟩

theorem isValid_clock {t : Timestamp} (h : t.second ≤ 60) : t.clock.isValid = true := by
  rw [Clock.isValid_iff]
  simp only [clock]
  omega

/-- Seconds and milliseconds as a clock shows them; the sixtieth second is a leap second. -/
def IsShown (t : Timestamp) : Prop := t.second ≤ 60 ∧ t.milli < 1000

def HasFourDigitYear (t : Timestamp) : Prop := 0 ≤ t.date.year ∧ t.date.year ≤ 9999

theorem isShown_ofEpochMillis (n : Int) :
    (ofEpochMillis n).IsShown ∧ (ofEpochMillis n).second ≤ 59 := by
  simp only [IsShown, ofEpochMillis]
  omega

@[simp] theorem toEpochMillis_ofEpochMillis (n : Int) : (ofEpochMillis n).toEpochMillis = n := by
  simp only [toEpochMillis, ofEpochMillis]
  omega

theorem ofEpochMillis_toEpochMillis {t : Timestamp} (hmilli : t.milli < 1000)
    (hsecond : t.second ≤ 59) : ofEpochMillis t.toEpochMillis = t := by
  obtain ⟨minute, second, milli⟩ := t
  simp only [toEpochMillis, ofEpochMillis, mk.injEq] at *
  omega

theorem fractionMillis_padded {n : Nat} (h : n < 1000) :
    fractionMillis (Decimal.padded 3 n) = n := by
  rw [fractionMillis, Decimal.ofDigits_padded, Decimal.length_padded (by decide) h]
  omega

theorem isShown_instant (s : Spelling) : s.instant.IsShown :=
  ⟨((Clock.isValid_iff s.clock).1 s.onClock).2.2, fractionMillis_lt s.isFraction⟩

/-- The spelling `YYYY-MM-DDTHH:MM:SS.mmmZ` of an instant. -/
def spelling (t : Timestamp) (hyear : t.HasFourDigitYear) (hshown : t.IsShown) : Spelling where
  date := t.date
  exists_date := t.isValid_date
  four_digits := hyear
  mark := 'T'
  isMark := rfl
  clock := t.clock
  onClock := isValid_clock hshown.1
  fraction := Decimal.padded 3 t.milli
  isFraction := fun _ hc => Decimal.isDigit_of_mem_padded hc
  zone := .utc 'Z' (.inl rfl)

theorem chars_eq (t : Timestamp) :
    t.chars = yearText t.date.year ++
      '-' :: (Decimal.padded 2 t.date.month ++ '-' :: (Decimal.padded 2 t.date.day ++
        'T' :: (clockChars t.clock ++ '.' :: (Decimal.padded 3 t.milli ++ ['Z'])))) := by
  simp [chars, date, clock, clockChars]

theorem chars_eq_dateChars {t : Timestamp} (hyear : t.HasFourDigitYear) :
    t.chars = dateChars t.date ++
      'T' :: (clockChars t.clock ++ '.' :: (Decimal.padded 3 t.milli ++ ['Z'])) := by
  have hrange : 0 ≤ t.date.year ∧ t.date.year ≤ 9999 := hyear
  rw [chars_eq, yearText, if_pos hrange, show t.date.year.natAbs = t.date.year.toNat by omega]
  simp only [dateChars, List.append_assoc, List.cons_append]

theorem chars_spelling {t : Timestamp} (hyear : t.HasFourDigitYear) (hshown : t.IsShown) :
    (t.spelling hyear hshown).chars = t.chars := by
  have hfraction : fractionChars (Decimal.padded 3 t.milli) = '.' :: Decimal.padded 3 t.milli := by
    have hlength := Decimal.le_length_padded 3 t.milli
    cases hpadded : Decimal.padded 3 t.milli with
    | nil => simp [hpadded] at hlength
    | cons d ds => rfl
  rw [chars_eq_dateChars hyear]
  simp only [Spelling.chars, spelling, hfraction, Zone.chars, List.cons_append]

theorem instant_spelling {t : Timestamp} (hyear : t.HasFourDigitYear) (hshown : t.IsShown) :
    (t.spelling hyear hshown).instant = t := by
  obtain ⟨minute, second, milli⟩ := t
  simp only [Spelling.instant, spelling, date, clock, Zone.minutesEast, Date.toDays_ofDays,
    fractionMillis_padded hshown.2, mk.injEq, and_true]
  omega

/-- A canonical text with a year of four digits reads back. -/
theorem read_chars {t : Timestamp} (hyear : t.HasFourDigitYear) (hshown : t.IsShown) :
    read t.chars = .ok t :=
  read_eq_ok_iff.2 ⟨t.spelling hyear hshown, chars_spelling hyear hshown, instant_spelling hyear hshown⟩

theorem chars_of_sign {t : Timestamp} (hyear : ¬ t.HasFourDigitYear) :
    ∃ sign rest, t.chars = sign :: rest ∧ sign.isDigit = false ∧ 18 ≤ rest.length := by
  have hrange : ¬ (0 ≤ t.date.year ∧ t.date.year ≤ 9999) := hyear
  rw [chars_eq, yearText, if_neg hrange, List.cons_append]
  refine ⟨if t.date.year < 0 then '-' else '+', _, rfl, by split <;> rfl, ?_⟩
  have := Decimal.le_length_padded 4 t.date.year.natAbs
  have := Decimal.le_length_padded 2 t.date.month
  have := Decimal.le_length_padded 2 t.date.day
  have := Decimal.le_length_padded 2 t.clock.hour
  have := Decimal.le_length_padded 2 t.clock.minute
  have := Decimal.le_length_padded 2 t.clock.second
  simp only [clockChars, List.length_append, List.length_cons]
  omega

/-- Any other year is written with a sign, which no reader of timestamps accepts. -/
theorem read_chars_of_sign {t : Timestamp} (hyear : ¬ t.HasFourDigitYear) :
    read t.chars = .error .invalidCharacters := by
  obtain ⟨sign, rest, hchars, hsign, hlength⟩ := chars_of_sign hyear
  have hbytes := length_le_utf8Length (sign :: rest)
  rw [List.length_cons] at hbytes
  rw [hchars, Rfc3339.read, if_neg (by omega)]
  simp [day, number, hsign]

theorem dateChars_append_lt_iff {d e : Date} (hd : d.isValid = true) (he : e.isValid = true)
    (hdyear : 0 ≤ d.year ∧ d.year ≤ 9999) (heyear : 0 ≤ e.year ∧ e.year ≤ 9999)
    {cs ds : List Char} :
    dateChars d ++ cs < dateChars e ++ ds ↔ d.Before e ∨ d = e ∧ cs < ds := by
  obtain ⟨dy, dm, dd⟩ := d
  obtain ⟨ey, em, ed⟩ := e
  have hdm := Date.lt_of_isValid hd
  have hem := Date.lt_of_isValid he
  simp only [dateChars, List.append_assoc, List.cons_append, Date.Before, Date.mk.injEq] at *
  rw [Decimal.padded_append_lt_iff (by decide) (by omega) (by omega), List.cons_lt_cons_self,
    Decimal.padded_append_lt_iff (by decide) hdm.1 hem.1, List.cons_lt_cons_self,
    Decimal.padded_append_lt_iff (by decide) hdm.2 hem.2]
  have hlt : dy.toNat < ey.toNat ↔ dy < ey := by omega
  have heq : dy.toNat = ey.toNat ↔ dy = ey := by omega
  rw [hlt, heq]
  simp only [and_or_left, or_assoc, and_assoc]

theorem clockChars_append_lt_iff {c d : Clock} (hc : c.isValid = true) (hd : d.isValid = true)
    {cs ds : List Char} :
    clockChars c ++ cs < clockChars d ++ ds ↔ c.hour < d.hour ∨ c.hour = d.hour ∧
      (c.minute < d.minute ∨ c.minute = d.minute ∧
        (c.second < d.second ∨ c.second = d.second ∧ cs < ds)) := by
  rw [Clock.isValid_iff] at hc hd
  simp only [clockChars, List.append_assoc, List.cons_append]
  rw [Decimal.padded_append_lt_iff (by decide) (by omega) (by omega), List.cons_lt_cons_self,
    Decimal.padded_append_lt_iff (by decide) (by omega) (by omega), List.cons_lt_cons_self,
    Decimal.padded_append_lt_iff (by decide) (by omega) (by omega)]

/-- Texts of instants outside of leap seconds are in the order of the instants. -/
theorem text_lt_text_iff {t u : Timestamp} (ht : t.HasFourDigitYear) (hu : u.HasFourDigitYear)
    (htmilli : t.milli < 1000) (humilli : u.milli < 1000) (htsecond : t.second ≤ 59)
    (husecond : u.second ≤ 59) : t.text < u.text ↔ t.toEpochMillis < u.toEpochMillis := by
  have hdate : t.date.Before u.date ↔ t.minute / 1440 < u.minute / 1440 := by
    rw [← Date.toDays_lt_iff t.isValid_date u.isValid_date, toDays_date, toDays_date]
  have hsame : t.date = u.date ↔ t.minute / 1440 = u.minute / 1440 := by
    refine ⟨fun h => ?_, fun h => by rw [date, date, h]⟩
    rw [← toDays_date, h, toDays_date]
  -- Dates stand for whole days, so the fields of the clock decide between instants of one day.
  have hlast : (['Z'] : List Char) < ['Z'] ↔ False := by decide
  have htext : t.text < u.text ↔ t.chars < u.chars := by
    rw [text, text, String.lt_iff, String.toList_ofList, String.toList_ofList]
  rw [htext, chars_eq_dateChars ht, chars_eq_dateChars hu,
    dateChars_append_lt_iff t.isValid_date u.isValid_date ht hu,
    List.cons_lt_cons_self,
    clockChars_append_lt_iff (isValid_clock (by omega)) (isValid_clock (by omega)),
    List.cons_lt_cons_self, Decimal.padded_append_lt_iff (by decide) htmilli humilli, hlast,
    hdate, hsame]
  simp only [clock, toEpochMillis, and_false, or_false]
  have hepoch : t.minute * 60000 + t.second * 1000 + t.milli <
      u.minute * 60000 + u.second * 1000 + u.milli ↔ t.minute < u.minute ∨ t.minute = u.minute ∧
        (t.second < u.second ∨ t.second = u.second ∧ t.milli < u.milli) := by
    omega
  generalize hx : (t.minute % 1440).toNat = x
  generalize hy : (u.minute % 1440).toNat = y
  have hclock : x < y ↔ x / 60 < y / 60 ∨ x / 60 = y / 60 ∧ x % 60 < y % 60 := by
    omega
  have hminute : t.minute < u.minute ↔ t.minute / 1440 < u.minute / 1440 ∨
      t.minute / 1440 = u.minute / 1440 ∧ x < y := by
    omega
  have hequal : t.minute = u.minute ↔ t.minute / 1440 = u.minute / 1440 ∧ x / 60 = y / 60 ∧
      x % 60 = y % 60 := by
    omega
  rw [hepoch, hequal, hminute, hclock]
  simp only [and_or_left, or_assoc, and_assoc]

theorem text_ofEpochMillis_lt_iff {m n : Int} (hm : (ofEpochMillis m).HasFourDigitYear)
    (hn : (ofEpochMillis n).HasFourDigitYear) :
    (ofEpochMillis m).text < (ofEpochMillis n).text ↔ m < n := by
  obtain ⟨hshown, hsecond⟩ := isShown_ofEpochMillis m
  obtain ⟨hshown', hsecond'⟩ := isShown_ofEpochMillis n
  rw [text_lt_text_iff hm hn hshown.2 hshown'.2 hsecond hsecond', toEpochMillis_ofEpochMillis,
    toEpochMillis_ofEpochMillis]

theorem text_ofEpochMillis_injective {m n : Int} (hm : (ofEpochMillis m).HasFourDigitYear)
    (hn : (ofEpochMillis n).HasFourDigitYear)
    (h : (ofEpochMillis m).text = (ofEpochMillis n).text) : m = n := by
  have hlt := text_ofEpochMillis_lt_iff hm hn
  have hgt := text_ofEpochMillis_lt_iff hn hm
  rw [h] at hlt hgt
  have hirrefl := String.lt_irrefl (ofEpochMillis n).text
  have hnotLess := mt hlt.2 hirrefl
  have hnotGreater := mt hgt.2 hirrefl
  omega

end DocQuery.Timestamp
