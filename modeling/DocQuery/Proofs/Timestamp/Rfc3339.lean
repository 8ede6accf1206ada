import DocQuery.Proofs.Calendar
import DocQuery.Proofs.Decimal
import DocQuery.Proofs.Sequencing
import DocQuery.Proofs.Text.Cut
import DocQuery.Timestamp.Rfc3339
import Mathlib.Data.List.TakeDrop

/-! Timestamps as they are written. The reader accepts exactly the spellings, and what it returns is
the instant that the date, the clock and the offset of the spelling denote. -/
namespace DocQuery.Timestamp.Rfc3339

/-- Where a local time is counted from. -/
inductive Zone where
  | utc (letter : Char) (isZulu : letter = 'Z' ∨ letter = 'z')
  | east (hours minutes : Nat) (inRange : hours ≤ 23 ∧ minutes ≤ 59)
  | west (sign : Char) (isMinus : sign = '-' ∨ sign = '\u2212') (hours minutes : Nat)
      (inRange : hours ≤ 23 ∧ minutes ≤ 59)

def zoneChars (sign : Char) (hours minutes : Nat) : List Char :=
  sign :: (Decimal.padded 2 hours ++ ':' :: Decimal.padded 2 minutes)

def Zone.chars : Zone → List Char
  | .utc letter _ => [letter]
  | .east hours minutes _ => zoneChars '+' hours minutes
  | .west sign _ hours minutes _ => zoneChars sign hours minutes

def Zone.minutesEast : Zone → Int
  | .utc _ _ => 0
  | .east hours minutes _ => hours * 60 + minutes
  | .west _ _ hours minutes _ => -(hours * 60 + minutes)

/-- A written timestamp; without a fraction there is no point either. -/
structure Spelling where
  date : Date
  exists_date : date.isValid = true
  four_digits : 0 ≤ date.year ∧ date.year ≤ 9999
  mark : Char
  isMark : isTimeMark mark = true
  clock : Clock
  onClock : clock.isValid = true
  fraction : List Char
  isFraction : ∀ c ∈ fraction, c.isDigit = true
  zone : Zone

def dateChars (d : Date) : List Char :=
  Decimal.padded 4 d.year.toNat ++
    '-' :: (Decimal.padded 2 d.month ++ '-' :: Decimal.padded 2 d.day)

def clockChars (c : Clock) : List Char :=
  Decimal.padded 2 c.hour ++
    ':' :: (Decimal.padded 2 c.minute ++ ':' :: Decimal.padded 2 c.second)

def fractionChars : List Char → List Char
  | [] => []
  | ds => '.' :: ds

/-- The milliseconds of a fraction, whose digits count tenths, hundredths and so on. -/
def fractionMillis (ds : List Char) : Nat := Decimal.ofDigits ds * 1000 / 10 ^ ds.length

namespace Spelling

def chars (s : Spelling) : List Char :=
  dateChars s.date ++ (s.mark :: clockChars s.clock ++ (fractionChars s.fraction ++ s.zone.chars))

def text (s : Spelling) : String := String.ofList s.chars

/-- Milliseconds from 1970-01-01T00:00:00Z, without those of leap seconds. -/
def epochMillis (s : Spelling) : Int :=
  (((s.date.daysSinceEpoch * 24 + s.clock.hour) * 60 + s.clock.minute - s.zone.minutesEast) * 60 +
    s.clock.second) * 1000 + fractionMillis s.fraction

def instant (s : Spelling) : Timestamp where
  minute := s.date.toDays * 1440 + s.clock.hour * 60 + s.clock.minute - s.zone.minutesEast
  second := s.clock.second
  milli := fractionMillis s.fraction

theorem toEpochMillis_instant (s : Spelling) : s.instant.toEpochMillis = s.epochMillis := by
  simp only [toEpochMillis, instant, epochMillis, Date.toDays_eq_daysSinceEpoch s.exists_date]
  omega

end Spelling

theorem number_eq_ok_iff {width n : Nat} (hwidth : 0 < width) {cs rest : List Char} :
    number width cs = .ok (n, rest) ↔ n < 10 ^ width ∧ cs = Decimal.padded width n ++ rest := by
  unfold number
  dsimp only
  constructor
  · intro h
    split at h
    · next hds =>
      obtain ⟨hlength, hdigits⟩ := hds
      cases h
      rw [List.all_eq_true] at hdigits
      have hne : cs.take width ≠ [] := List.ne_nil_of_length_pos (by omega)
      have hlt := Decimal.ofDigits_lt hdigits
      have hpadded := Decimal.padded_ofDigits hne hdigits
      rw [hlength] at hlt hpadded
      exact ⟨hlt, by rw [hpadded, List.take_append_drop]⟩
    · cases h
  · rintro ⟨hlt, rfl⟩
    have hlength := Decimal.length_padded hwidth hlt
    have htake : (Decimal.padded width n ++ rest).take width = Decimal.padded width n :=
      List.take_left' hlength
    have hdrop : (Decimal.padded width n ++ rest).drop width = rest := List.drop_left' hlength
    rw [htake, hdrop, if_pos ⟨hlength, List.all_eq_true.2 fun c hc => Decimal.isDigit_of_mem_padded hc⟩,
      Decimal.ofDigits_padded]

theorem skip_eq_ok_iff {p : Char → Bool} {cs rest : List Char} :
    skip p cs = .ok rest ↔ ∃ c, p c = true ∧ cs = c :: rest := by
  cases cs with
  | nil => simp [skip]
  | cons c cs => by_cases h : p c = true <;> grind [skip]

theorem skip_char_eq_ok_iff {c : Char} {cs rest : List Char} :
    skip (· == c) cs = .ok rest ↔ cs = c :: rest := by
  simp [skip_eq_ok_iff]

theorem day_eq_ok_iff {cs rest : List Char} {n : Int} :
    day cs = .ok (n, rest) ↔ ∃ d : Date, d.isValid = true ∧ (0 ≤ d.year ∧ d.year ≤ 9999) ∧
      n = d.toDays ∧ cs = dateChars d ++ rest := by
  unfold day dateChars
  simp only [bind_eq_ok_iff, Prod.exists, number_eq_ok_iff (show 0 < 4 by decide),
    number_eq_ok_iff (show 0 < 2 by decide), skip_char_eq_ok_iff]
  constructor
  · rintro ⟨year, _, ⟨hyear, rfl⟩, _, rfl, month, _, ⟨-, rfl⟩, _, rfl, k, rest', ⟨-, rfl⟩, h⟩
    split at h
    · next hvalid =>
      cases h
      exact ⟨_, hvalid, by simp only; omega, rfl, by simp⟩
    · cases h
  · rintro ⟨⟨year, month, k⟩, hvalid, hyear, rfl, rfl⟩
    obtain ⟨hmonth, hday⟩ := Date.lt_of_isValid hvalid
    simp only at hmonth hday hyear
    refine ⟨year.toNat, _, ⟨by omega, List.append_assoc ..⟩, _, rfl, month, _,
      ⟨hmonth, List.append_assoc ..⟩, _, rfl, k, rest, ⟨hday, rfl⟩, ?_⟩
    rw [Int.toNat_of_nonneg hyear.1, if_pos hvalid]

theorem clock_eq_ok_iff {cs rest : List Char} {c : Clock} :
    clock cs = .ok (c, rest) ↔ (c.hour < 100 ∧ c.minute < 100 ∧ c.second < 100) ∧
      ∃ mark, isTimeMark mark = true ∧ cs = mark :: clockChars c ++ rest := by
  unfold clock clockChars
  simp only [bind_eq_ok_iff, Prod.exists, number_eq_ok_iff (show 0 < 2 by decide),
    skip_char_eq_ok_iff, skip_eq_ok_iff (p := isTimeMark), pure_eq_ok]
  constructor
  · rintro ⟨_, ⟨mark, hmark, rfl⟩, h, _, ⟨hh, rfl⟩, _, rfl, m, _, ⟨hm, rfl⟩, _, rfl, s, _,
      ⟨hs, rfl⟩, heq⟩
    cases heq
    exact ⟨⟨hh, hm, hs⟩, mark, hmark, by simp⟩
  · rintro ⟨⟨hh, hm, hs⟩, mark, hmark, rfl⟩
    exact ⟨_, ⟨mark, hmark, rfl⟩, c.hour, _, ⟨hh, List.append_assoc ..⟩, _, rfl, c.minute, _,
      ⟨hm, List.append_assoc ..⟩, _, rfl, c.second, rest, ⟨hs, rfl⟩, rfl⟩

theorem fractionMillis_eq {ds : List Char} (hne : ds ≠ []) (h : ∀ c ∈ ds, c.isDigit = true) :
    Decimal.ofDigits ((ds ++ ['0', '0']).take 3) = fractionMillis ds := by
  unfold fractionMillis
  match ds with
  | [] => exact absurd rfl hne
  | [a] => simp [Decimal.ofDigits]; omega
  | [a, b] => simp [Decimal.ofDigits]; omega
  | a :: b :: c :: rest =>
    have hrest : Decimal.ofDigits rest < 10 ^ rest.length :=
      Decimal.ofDigits_lt fun d hd => h d (by simp [hd])
    have hsplit := Decimal.ofDigits_append [a, b, c] rest
    have hpow : 10 ^ (a :: b :: c :: rest).length = 10 ^ rest.length * 1000 := by
      simp [Nat.pow_succ]; omega
    change Decimal.ofDigits [a, b, c] =
      Decimal.ofDigits ([a, b, c] ++ rest) * 1000 / 10 ^ (a :: b :: c :: rest).length
    rw [hpow, Nat.mul_div_mul_right _ _ (by decide), hsplit, Nat.mul_add_div (by positivity),
      Nat.div_eq_of_lt hrest, Nat.add_zero]

theorem fraction_eq_ok {cs rest : List Char} {n : Nat} (h : fraction cs = .ok (n, rest)) :
    ∃ ds, (∀ c ∈ ds, c.isDigit = true) ∧ cs = fractionChars ds ++ rest ∧
      n = fractionMillis ds := by
  unfold fraction at h
  split at h
  · next cs =>
    rw [List.span_eq_takeWhile_dropWhile] at h
    split at h
    · cases h
    · cases h
    · next hnone hne heq =>
      cases h
      cases heq
      have hdigits : ∀ c ∈ cs.takeWhile Char.isDigit, c.isDigit = true :=
        fun c hc => List.mem_takeWhile_imp hc
      have hsome : cs.takeWhile Char.isDigit ≠ [] := fun hnil => hne hnil
      refine ⟨_, hdigits, ?_, fractionMillis_eq hsome hdigits⟩
      rw [fractionChars, List.cons_append, List.takeWhile_append_dropWhile]
      exact hsome
  · cases h
    exact ⟨[], by simp, rfl, rfl⟩

theorem fraction_append {ds rest : List Char} (hds : ∀ c ∈ ds, c.isDigit = true)
    (hrest : ∃ c cs, rest = c :: cs ∧ c ≠ '.' ∧ c.isDigit = false) :
    fraction (fractionChars ds ++ rest) = .ok (fractionMillis ds, rest) := by
  obtain ⟨c, cs, rfl, hpoint, hdigit⟩ := hrest
  cases ds with
  | nil =>
    unfold fraction
    split
    · next heq =>
      cases heq
      exact absurd rfl hpoint
    · rfl
  | cons d ds =>
    have hspan : (d :: ds ++ c :: cs).span Char.isDigit = (d :: ds, c :: cs) := by
      have hstop : ∀ x, (c :: cs).head? = some x → x.isDigit = false := by simpa using hdigit
      rw [List.span_eq_takeWhile_dropWhile, Text.takeWhile_append_stop hds hstop,
        Text.dropWhile_append_stop hds hstop]
    rw [fractionChars, List.cons_append, fraction, hspan]
    · simp only
      rw [fractionMillis_eq (by simp) hds]
    · simp

theorem length_le_utf8Length (cs : List Char) : cs.length ≤ utf8Length cs := by
  induction cs with
  | nil => exact Nat.le_refl _
  | cons c cs ih =>
    have := c.utf8Size_pos
    rw [utf8Length, List.length_cons]
    omega

theorem padded_two {n : Nat} (h : n < 100) :
    Decimal.padded 2 n = [(n / 10).digitChar, (n % 10).digitChar] := by
  rw [Decimal.padded_succ (by decide), Decimal.padded_one (by omega)]
  rfl

theorem offsetMinutes_eq_ok_iff {cs rest : List Char} {n : Nat} :
    offsetMinutes cs = .ok (n, rest) ↔ n ≤ 59 ∧ cs = Decimal.padded 2 n ++ rest := by
  unfold offsetMinutes
  constructor
  · intro h
    split at h
    · cases h
    split at h
    · next a b _ _ =>
      split at h
      · next hdigits =>
        rw [Bool.and_eq_true] at hdigits
        split at h
        · cases h
        · next hsix =>
          cases h
          have hab : ∀ c ∈ [a, b], c.isDigit = true := by simpa using hdigits
          have hpadded := Decimal.padded_ofDigits (by simp) hab
          have htens : a.toNat < 54 := Nat.not_le.1 fun hle => hsix (UInt32.le_iff_toNat_le.2 hle)
          have hones := (Decimal.digitChar_value hdigits.2).2
          refine ⟨?_, by simpa using congrArg (· ++ rest) hpadded.symm⟩
          simp only [Decimal.ofDigits, List.foldl_cons, List.foldl_nil, Char.reduceToNat] at hones ⊢
          omega
      · cases h
    · cases h
  · rintro ⟨hn, rfl⟩
    rw [padded_two (by omega)]
    have htens : ¬ '6' ≤ (n / 10).digitChar := by
      intro hle
      have hvalue : 54 ≤ (n / 10).digitChar.toNat := UInt32.le_iff_toNat_le.1 hle
      rw [Nat.toNat_digitChar_of_lt_ten (by omega)] at hvalue
      omega
    have hlength := length_le_utf8Length ((n / 10).digitChar :: (n % 10).digitChar :: rest)
    simp only [List.length_cons] at hlength
    have hvalue : Decimal.ofDigits [(n / 10).digitChar, (n % 10).digitChar] = n := by
      rw [← padded_two (by omega), Decimal.ofDigits_padded]
    simp only [List.cons_append, List.nil_append, Nat.isDigit_digitChar]
    rw [if_neg (by omega), if_pos (by simp; omega), if_neg htens, hvalue]

theorem offsetSize_eq_ok_iff {cs rest : List Char} {n : Nat} :
    offsetSize cs = .ok (n, rest) ↔ ∃ hours minutes, (hours < 100 ∧ minutes ≤ 59) ∧
      n = hours * 60 + minutes ∧
      cs = Decimal.padded 2 hours ++ ':' :: Decimal.padded 2 minutes ++ rest := by
  unfold offsetSize
  simp only [bind_eq_ok_iff, Prod.exists, number_eq_ok_iff (show 0 < 2 by decide),
    skip_char_eq_ok_iff, guard_eq_ok_iff, offsetMinutes_eq_ok_iff, pure_eq_ok]
  constructor
  · rintro ⟨-, hours, _, ⟨hhours, rfl⟩, -, _, rfl, minutes, _, ⟨hminutes, rfl⟩, heq⟩
    cases heq
    exact ⟨hours, minutes, ⟨hhours, hminutes⟩, rfl, by simp⟩
  · rintro ⟨hours, minutes, ⟨hhours, hminutes⟩, rfl, rfl⟩
    have hlength := Decimal.le_length_padded 2 hours
    have hbytes := length_le_utf8Length
      (Decimal.padded 2 hours ++ ':' :: Decimal.padded 2 minutes ++ rest)
    rw [List.length_append, List.length_append] at hbytes
    exact ⟨by omega, hours, _, ⟨hhours, List.append_assoc ..⟩, by simp, _, rfl, minutes, rest,
      ⟨hminutes, rfl⟩, rfl⟩

theorem offsetSize_append {hours minutes : Nat} (rest : List Char) (hhours : hours < 100)
    (hminutes : minutes ≤ 59) :
    offsetSize (Decimal.padded 2 hours ++ ':' :: Decimal.padded 2 minutes ++ rest) =
      .ok (hours * 60 + minutes, rest) :=
  offsetSize_eq_ok_iff.2 ⟨hours, minutes, ⟨hhours, hminutes⟩, rfl, rfl⟩

theorem Zone.exists_head (z : Zone) : ∃ c cs, z.chars = c :: cs ∧ c ≠ '.' ∧ c.isDigit = false := by
  cases z with
  | utc letter isZulu => exact ⟨letter, [], rfl, by rcases isZulu with rfl | rfl <;> decide⟩
  | east hours minutes inRange => exact ⟨'+', _, rfl, by decide⟩
  | west sign isMinus hours minutes inRange =>
    exact ⟨sign, _, rfl, by rcases isMinus with rfl | rfl <;> decide⟩

/-- An offset moves an instant by less than a day. -/
theorem natAbs_minutesEast_lt (z : Zone) : z.minutesEast.natAbs < 1440 := by
  cases z <;> simp only [Zone.minutesEast] <;> omega

/-- An offset of a day or more is read, and refused only after everything else. -/
theorem offset_eq_ok_iff {cs rest : List Char} {n : Int} :
    offset cs = .ok (n, rest) ∧ n.natAbs < 1440 ↔
      ∃ z : Zone, n = z.minutesEast ∧ cs = z.chars ++ rest := by
  constructor
  · rintro ⟨h, hrange⟩
    unfold offset at h
    split at h
    · cases h
    next c cs =>
    split at h
    · next hzulu =>
      cases h
      exact ⟨.utc c hzulu, rfl, rfl⟩
    split at h
    · next hplus =>
      simp only [bind_eq_ok_iff, Prod.exists, offsetSize_eq_ok_iff, pure_eq_ok] at h
      obtain ⟨_, _, ⟨hours, minutes, ⟨hhours, hminutes⟩, rfl, rfl⟩, heq⟩ := h
      cases heq
      subst hplus
      exact ⟨.east hours minutes (by omega), by simp [Zone.minutesEast], rfl⟩
    split at h
    · next hminus =>
      simp only [bind_eq_ok_iff, Prod.exists, offsetSize_eq_ok_iff, pure_eq_ok] at h
      obtain ⟨_, _, ⟨hours, minutes, ⟨hhours, hminutes⟩, rfl, rfl⟩, heq⟩ := h
      cases heq
      exact ⟨.west c hminus hours minutes (by omega), by simp [Zone.minutesEast], rfl⟩
    · cases h
  · rintro ⟨z, rfl, rfl⟩
    refine ⟨?_, natAbs_minutesEast_lt z⟩
    cases z with
    | utc letter isZulu => simp [offset, Zone.chars, Zone.minutesEast, isZulu]
    | east hours minutes inRange =>
      have hsize := offsetSize_append rest (show hours < 100 by omega) inRange.2
      simp only [Zone.chars, zoneChars, List.cons_append, offset]
      rw [if_neg (by decide), if_pos trivial, hsize]
      simp [Zone.minutesEast]
    | west sign isMinus hours minutes inRange =>
      have hsize := offsetSize_append rest (show hours < 100 by omega) inRange.2
      have hsign : ¬ (sign = 'Z' ∨ sign = 'z') ∧ sign ≠ '+' := by
        rcases isMinus with rfl | rfl <;> decide
      simp only [Zone.chars, zoneChars, List.cons_append, offset]
      rw [if_neg hsign.1, if_neg hsign.2, if_pos isMinus, hsize]
      simp [Zone.minutesEast]

theorem Clock.isValid_iff (c : Clock) :
    c.isValid = true ↔ c.hour ≤ 23 ∧ c.minute ≤ 59 ∧ c.second ≤ 60 := by
  simp [Clock.isValid, and_assoc]

theorem Spelling.le_length_chars (s : Spelling) : 19 ≤ s.chars.length := by
  have := Decimal.le_length_padded 4 s.date.year.toNat
  have := Decimal.le_length_padded 2 s.date.month
  have := Decimal.le_length_padded 2 s.date.day
  have := Decimal.le_length_padded 2 s.clock.hour
  have := Decimal.le_length_padded 2 s.clock.minute
  have := Decimal.le_length_padded 2 s.clock.second
  simp only [chars, dateChars, clockChars, List.length_append, List.length_cons]
  omega

/-- The reader accepts the spellings and nothing else. -/
theorem read_eq_ok_iff {cs : List Char} {t : Timestamp} :
    read cs = .ok t ↔ ∃ s : Spelling, s.chars = cs ∧ s.instant = t := by
  unfold read
  simp only [bind_eq_ok_iff, Prod.exists, guard_eq_ok_iff, day_eq_ok_iff, clock_eq_ok_iff, pure_eq_ok]
  constructor
  · rintro ⟨-, _, _, ⟨d, hd, hyear, rfl, rfl⟩, c, _, ⟨-, mark, hmark, rfl⟩, n, _, hfraction, hclock,
      z, rest, hoffset, hend, hrange, heq⟩
    obtain ⟨ds, hds, rfl, rfl⟩ := fraction_eq_ok hfraction
    obtain ⟨zone, rfl, rfl⟩ := offset_eq_ok_iff.1 ⟨hoffset, by omega⟩
    obtain rfl : rest = [] := by simpa using hend
    cases heq
    exact ⟨⟨d, hd, hyear, mark, hmark, c, by simpa using hclock, ds, hds, zone⟩,
      by simp [Spelling.chars], rfl⟩
  · rintro ⟨s, rfl, rfl⟩
    have hlength := s.le_length_chars
    have hbytes := length_le_utf8Length s.chars
    obtain ⟨hh, hm, hs⟩ := (Clock.isValid_iff s.clock).1 s.onClock
    obtain ⟨hoffset, hrange⟩ := offset_eq_ok_iff.2 ⟨s.zone, rfl, (List.append_nil _).symm⟩
    exact ⟨by omega, _, _, ⟨s.date, s.exists_date, s.four_digits, rfl, rfl⟩, s.clock, _,
      ⟨⟨by omega, by omega, by omega⟩, s.mark, s.isMark, rfl⟩, _, s.zone.chars,
      fraction_append s.isFraction s.zone.exists_head, by simp [s.onClock], _, [], hoffset, by simp,
      by omega, rfl⟩

theorem fractionMillis_lt {ds : List Char} (h : ∀ c ∈ ds, c.isDigit = true) :
    fractionMillis ds < 1000 := by
  have hlt := Decimal.ofDigits_lt h
  apply (Nat.div_lt_iff_lt_mul (by positivity)).2
  omega

theorem daysSinceEpoch_bounds (s : Spelling) :
    -719528 ≤ s.date.daysSinceEpoch ∧ s.date.daysSinceEpoch < 2932897 := by
  obtain ⟨h1, h2, h3⟩ := Date.toDays_bounds s.exists_date
  rw [Date.toDays_eq_daysSinceEpoch s.exists_date] at h1 h2
  have hyear := Date.daysBeforeYear_bounds s.four_digits.1 s.four_digits.2
  omega

theorem epochMillis_bounds (s : Spelling) :
    firstEpochMilli ≤ s.epochMillis ∧ s.epochMillis ≤ lastEpochMilli := by
  have hdays := daysSinceEpoch_bounds s
  have hzone := natAbs_minutesEast_lt s.zone
  have hfraction := fractionMillis_lt s.isFraction
  obtain ⟨hh, hm, hs⟩ := (Clock.isValid_iff s.clock).1 s.onClock
  simp only [Spelling.epochMillis, firstEpochMilli, lastEpochMilli]
  omega

end DocQuery.Timestamp.Rfc3339
