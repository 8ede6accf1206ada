import DocQuery.DateLike
import DocQuery.Proofs.Json.Structure
import DocQuery.Proofs.Timestamp.Text

/-! Date-likes and their canonical texts: one text for each instant, in the order of the instants, and
read back as itself in the years that four digits can write. -/
namespace DocQuery.DateLike

open Timestamp Timestamp.Rfc3339

theorem instant_string_eq_ok_iff {text : String} {t : Timestamp} :
    instant (.string text) = .ok t ↔ ∃ s : Spelling, s.text = text ∧ s.instant = t := by
  have htext (s : Spelling) : s.text = text ↔ s.chars = text.toList := by
    rw [Spelling.text, ← String.toList_inj, String.toList_ofList]
  simp only [instant, mapError_eq_ok_iff, ofText, read_eq_ok_iff, htext]

theorem instant_int_eq_ok_iff {n : Int} {h} {t : Timestamp} :
    instant (.number (.int n h)) = .ok t ↔
      (firstEpochMilli ≤ n ∧ n ≤ lastEpochMilli) ∧ ofEpochMillis n = t := by
  by_cases hn : firstEpochMilli ≤ n ∧ n ≤ lastEpochMilli
  · simp [instant, Number.int?, ofEpochMillis?, hn]
  · simp [instant, Number.int?, ofEpochMillis?, hn]

/-- Milliseconds that denote an instant are a number that JSON can hold. -/
theorem canonical_millis {n : Int} (hn : firstEpochMilli ≤ n ∧ n ≤ lastEpochMilli) :
    ∃ h, canonical (dated (.number (.int n h))) = .ok (ofEpochMillis n).text := by
  have hrange : -0x8000000000000000 ≤ n ∧ n ≤ 0xFFFFFFFFFFFFFFFF := by
    simp only [firstEpochMilli, lastEpochMilli] at hn
    omega
  exact ⟨hrange, canonical_dated_eq_ok_iff.2 ⟨_, instant_int_eq_ok_iff.2 ⟨hn, rfl⟩, rfl⟩⟩

theorem canonical_spelling (s : Spelling) :
    canonical (dated (.string s.text)) = .ok s.instant.text :=
  canonical_dated_eq_ok_iff.2 ⟨_, instant_string_eq_ok_iff.2 ⟨s, rfl, rfl⟩, rfl⟩

theorem ofEpochMillis_spelling {s : Spelling} (hsecond : s.clock.second ≤ 59) :
    ofEpochMillis s.epochMillis = s.instant := by
  rw [← s.toEpochMillis_instant]
  exact ofEpochMillis_toEpochMillis (isShown_instant s).2 hsecond

/-- An accepted text is canonicalised by the millisecond that it denotes: as that number of
milliseconds is, and as every other text of the same millisecond. -/
theorem canonical_by_instant {text c : String} (hc : canonical (dated (.string text)) = .ok c) :
    (∃ s : Spelling, s.text = text) ∧
      ∀ s : Spelling, s.text = text → s.clock.second ≤ 59 →
        (firstEpochMilli ≤ s.epochMillis ∧ s.epochMillis ≤ lastEpochMilli) ∧
          (∃ h, canonical (dated (.number (.int s.epochMillis h))) = .ok c) ∧
          c = (ofEpochMillis s.epochMillis).text ∧
          ∀ other : Spelling, other.clock.second ≤ 59 → other.epochMillis = s.epochMillis →
            canonical (dated (.string other.text)) = .ok c := by
  obtain ⟨t, ht, -⟩ := canonical_dated_eq_ok_iff.1 hc
  obtain ⟨accepted, haccepted, -⟩ := instant_string_eq_ok_iff.1 ht
  refine ⟨⟨accepted, haccepted⟩, ?_⟩
  rintro s rfl hsecond
  have htext : c = (ofEpochMillis s.epochMillis).text := by
    rw [canonical_spelling] at hc
    rw [ofEpochMillis_spelling hsecond]
    exact (Except.ok.inj hc).symm
  have hbounds := epochMillis_bounds s
  refine ⟨hbounds, htext ▸ canonical_millis hbounds, htext, ?_⟩
  intro other hother hsame
  rw [canonical_spelling, ← ofEpochMillis_spelling hother, hsame, htext]

/-- An hour west of UTC, half an hour before the end of a leap day. -/
theorem canonical_after_leap_day :
    canonical (dated (.string "2024-02-29T23:30:00.9999-01:00")) = .ok "2024-03-01T00:30:00.999Z" ∧
      ∃ h, canonical (dated (.number (.int 1709253000999 h))) = .ok "2024-03-01T00:30:00.999Z" := by
  let s : Spelling :=
    { date := ⟨2024, 2, 29⟩, exists_date := rfl, four_digits := by decide, mark := 'T', isMark := rfl,
      clock := ⟨23, 30, 0⟩, onClock := rfl, fraction := ['9', '9', '9', '9'],
      isFraction := List.all_eq_true.1 rfl, zone := .west '-' (.inl rfl) 1 0 (by decide) }
  have htext : s.text = "2024-02-29T23:30:00.9999-01:00" := by decide +kernel
  have hmillis : s.epochMillis = 1709253000999 := by
    rw [← s.toEpochMillis_instant]
    decide +kernel
  have hc : canonical (dated (.string "2024-02-29T23:30:00.9999-01:00")) =
      .ok "2024-03-01T00:30:00.999Z" := by
    rw [← htext, canonical_spelling, show s.instant.text = "2024-03-01T00:30:00.999Z" by decide +kernel]
  obtain ⟨-, hn, -⟩ := (canonical_by_instant hc).2 s htext (by decide)
  exact ⟨hc, hmillis ▸ hn⟩

/-- The milliseconds of the years that four digits can write denote instants. -/
theorem epochMilli_bounds_of_hasFourDigitYear {n : Int} (h : (ofEpochMillis n).HasFourDigitYear) :
    firstEpochMilli ≤ n ∧ n ≤ lastEpochMilli := by
  obtain ⟨hfirst, hlast⟩ := h
  have hyear : (ofEpochMillis n).date.year = (Date.ofDays (n / 60000 / 1440)).year := rfl
  obtain ⟨hle, hlt⟩ := (Date.year_ofDays_iff (n / 60000 / 1440) _).1 hyear.symm
  obtain ⟨hlower, hupper⟩ := Date.daysBeforeYear_bounds hfirst hlast
  simp only [firstEpochMilli, lastEpochMilli]
  omega

/-- Canonical texts are in the order of the milliseconds that they are made of. -/
theorem canonical_lt_iff {a b : Int} (ha : (ofEpochMillis a).HasFourDigitYear)
    (hb : (ofEpochMillis b).HasFourDigitYear) :
    ∃ ha' hb' ca cb, canonical (dated (.number (.int a ha'))) = .ok ca ∧
      canonical (dated (.number (.int b hb'))) = .ok cb ∧ (a < b ↔ ca < cb) ∧
      (ca = cb → a = b) := by
  obtain ⟨ha', hca⟩ := canonical_millis (epochMilli_bounds_of_hasFourDigitYear ha)
  obtain ⟨hb', hcb⟩ := canonical_millis (epochMilli_bounds_of_hasFourDigitYear hb)
  exact ⟨ha', hb', _, _, hca, hcb, (text_ofEpochMillis_lt_iff ha hb).symm,
    text_ofEpochMillis_injective ha hb⟩

/-- The leap day of the year 0 and the last millisecond of 1969. -/
theorem canonical_lt_before_epoch :
    (ofEpochMillis (-62162121600000)).HasFourDigitYear ∧ (ofEpochMillis (-1)).HasFourDigitYear ∧
      ∃ ha hb ca cb, canonical (dated (.number (.int (-62162121600000) ha))) = .ok ca ∧
        canonical (dated (.number (.int (-1) hb))) = .ok cb ∧ ca < cb := by
  have hfirst : (ofEpochMillis (-62162121600000)).HasFourDigitYear := ⟨by decide, by decide⟩
  have hsecond : (ofEpochMillis (-1)).HasFourDigitYear := ⟨by decide, by decide⟩
  obtain ⟨ha, hb, ca, cb, hca, hcb, hlt, -⟩ := canonical_lt_iff hfirst hsecond
  exact ⟨hfirst, hsecond, ha, hb, ca, cb, hca, hcb, hlt.1 (by decide)⟩

theorem isShown_of_instant {content : Json} {t : Timestamp} (h : instant content = .ok t) :
    t.IsShown := by
  unfold instant at h
  split at h
  · obtain ⟨s, -, rfl⟩ := instant_string_eq_ok_iff.1 h
    exact isShown_instant s
  · split at h
    · next n t' hn =>
      cases h
      obtain ⟨k, -, hk⟩ := Option.bind_eq_some_iff.1 hn
      obtain ⟨-, hk⟩ := Option.ite_none_right_eq_some.1 hk
      exact Option.some.inj hk ▸ (isShown_ofEpochMillis k).1
    · cases h
  · cases h

/-- The texts `YYYY-MM-DDTHH:MM:SS.mmmZ`. -/
def IsCanonicalForm (c : String) : Prop :=
  ∃ s : Spelling, s.text = c ∧ s.mark = 'T' ∧ s.fraction.length = 3 ∧ ∃ h, s.zone = .utc 'Z' h

theorem isCanonicalForm_text {t : Timestamp} (hyear : t.HasFourDigitYear) (hshown : t.IsShown) :
    IsCanonicalForm t.text :=
  ⟨t.spelling hyear hshown, congrArg String.ofList (chars_spelling hyear hshown), rfl,
    Decimal.length_padded (by decide) hshown.2, _, rfl⟩

theorem ofText_text (t : Timestamp) : ofText t.text = read t.chars := by
  rw [ofText, text, String.toList_ofList]

theorem canonical_text {t : Timestamp} (hyear : t.HasFourDigitYear) (hshown : t.IsShown) :
    canonical (dated (.string t.text)) = .ok t.text := by
  refine canonical_dated_eq_ok_iff.2 ⟨t, ?_, rfl⟩
  rw [instant, ofText_text, read_chars hyear hshown, mapError_ok]

theorem not_isCanonicalForm_text {t : Timestamp} (hyear : ¬ t.HasFourDigitYear) :
    ¬ IsCanonicalForm t.text := by
  rintro ⟨s, hs, -⟩
  have hread := read_eq_ok_iff.2 ⟨s, rfl, rfl⟩
  have hchars : s.chars = t.chars := String.ofList_injective hs
  rw [hchars, read_chars_of_sign hyear] at hread
  cases hread

theorem canonical_text_of_sign {t : Timestamp} (hyear : ¬ t.HasFourDigitYear) :
    canonical (dated (.string t.text)) = .error (.text t.text .invalidCharacters) := by
  simp only [canonical, date?_dated, instant, ofText_text, read_chars_of_sign hyear, mapError_error]
  rfl

/-- A canonical text is the canonical text of itself, where four digits can write its year. A text
of any other year has a sign before the year, and is no timestamp. -/
theorem canonical_of_canonical {v : Json} {c : String} (hc : canonical v = .ok c) :
    ∃ content t, v = dated content ∧ instant content = .ok t ∧ t.text = c ∧
      (t.HasFourDigitYear → IsCanonicalForm c ∧ canonical (dated (.string c)) = .ok c) ∧
      (¬ t.HasFourDigitYear → ¬ IsCanonicalForm c ∧
        canonical (dated (.string c)) = .error (.text c .invalidCharacters)) := by
  obtain ⟨content, t, rfl, ht, rfl⟩ := canonical_eq_ok_iff.1 hc
  have hshown := isShown_of_instant ht
  exact ⟨content, t, rfl, ht, rfl,
    fun hyear => ⟨isCanonicalForm_text hyear hshown, canonical_text hyear hshown⟩,
    fun hyear => ⟨not_isCanonicalForm_text hyear, canonical_text_of_sign hyear⟩⟩

/-- The last millisecond that four digits can write. -/
theorem canonical_of_last_year :
    ∃ h, canonical (dated (.number (.int 253402300799999 h))) = .ok "9999-12-31T23:59:59.999Z" ∧
      IsCanonicalForm "9999-12-31T23:59:59.999Z" ∧
      canonical (dated (.string "9999-12-31T23:59:59.999Z")) = .ok "9999-12-31T23:59:59.999Z" := by
  obtain ⟨h, hc⟩ := canonical_millis (n := 253402300799999) (by decide)
  rw [show (ofEpochMillis 253402300799999).text = "9999-12-31T23:59:59.999Z" by decide +kernel] at hc
  obtain ⟨content, t, heq, ht, -, hread, -⟩ := canonical_of_canonical hc
  obtain rfl : .number (.int 253402300799999 h) = content := by simpa [dated] using heq
  obtain ⟨-, rfl⟩ := instant_int_eq_ok_iff.1 ht
  exact ⟨h, hc, hread ⟨by decide +kernel, by decide +kernel⟩⟩

/-- The first millisecond after the years of four digits. -/
theorem five_digit_year_not_reread :
    ∃ h, canonical (dated (.number (.int 253402300800000 h))) = .ok "+10000-01-01T00:00:00.000Z" ∧
      ¬ IsCanonicalForm "+10000-01-01T00:00:00.000Z" ∧
      canonical (dated (.string "+10000-01-01T00:00:00.000Z")) =
        .error (.text "+10000-01-01T00:00:00.000Z" .invalidCharacters) := by
  have htext : (ofEpochMillis 253402300800000).text = "+10000-01-01T00:00:00.000Z" := by
    decide +kernel
  have hyear : ¬ (ofEpochMillis 253402300800000).HasFourDigitYear :=
    fun h => absurd h.2 (by decide +kernel)
  obtain ⟨h, hc⟩ := canonical_millis (n := 253402300800000) (by decide)
  rw [← htext]
  exact ⟨h, hc, not_isCanonicalForm_text hyear, canonical_text_of_sign hyear⟩

end DocQuery.DateLike
