import DocQuery.Proofs.Json.Structure

/-! Values with dates as BSON: the conversion replaces the dates and takes the result as it stands,
and each of its failures is one of the date check or one of an integer that is too large. -/
namespace DocQuery

namespace Json

/-- A value occurs within another one, and not within a date-like of it. -/
inductive OutsideDates (x : Json) : Json → Prop
  | self : OutsideDates x x
  | item {items : List Json} {item : Json} :
      item ∈ items → OutsideDates x item → OutsideDates x (.array items)
  | member {members : List (String × Json)} {key : String} {value : Json} :
      (Json.object members).isDateLike = false → (key, value) ∈ members → OutsideDates x value →
        OutsideDates x (.object members)

/-- An integer that no signed 64-bit number holds occurs outside of the date-likes. -/
def HoldsHugeOutsideDates (v : Json) : Prop :=
  ∃ i h, maxSigned < i ∧ OutsideDates (.number (.int i h)) v

theorem holdsHugeOutsideDates_of_not_container {v : Json} (hobject : ∀ members, v ≠ .object members)
    (harray : ∀ items, v ≠ .array items) : v.HoldsHugeOutsideDates ↔ v.HoldsHuge := by
  have hoccurs (x : Json) : OutsideDates x v ↔ Within x v := by
    constructor
    · rintro (_ | _ | _)
      · exact .self
      · exact absurd rfl (harray _)
      · exact absurd rfl (hobject _)
    · rintro (_ | _ | _)
      · exact .self
      · exact absurd rfl (harray _)
      · exact absurd rfl (hobject _)
  simp only [HoldsHugeOutsideDates, HoldsHuge, hoccurs]

theorem holdsHugeOutsideDates_array_iff {items : List Json} :
    HoldsHugeOutsideDates (.array items) ↔ ∃ item ∈ items, HoldsHugeOutsideDates item := by
  constructor
  · intro h'
    rcases h' with ⟨i, h, hi, _ | ⟨hm, hw⟩⟩
    exact ⟨_, hm, i, h, hi, hw⟩
  · intro h'
    rcases h' with ⟨item, hm, i, h, hi, hw⟩
    exact ⟨i, h, hi, .item hm hw⟩

theorem holdsHugeOutsideDates_object_iff {members : List (String × Json)} :
    HoldsHugeOutsideDates (.object members) ↔
      (Json.object members).isDateLike = false ∧ ∃ m ∈ members, HoldsHugeOutsideDates m.2 := by
  constructor
  · intro h'
    rcases h' with ⟨i, h, hi, _ | _ | ⟨hdate, hm, hw⟩⟩
    exact ⟨hdate, _, hm, i, h, hi, hw⟩
  · intro h'
    rcases h' with ⟨hdate, m, hm, i, h, hi, hw⟩
    exact ⟨i, h, hi, .member hdate hm hw⟩

theorem not_holdsHugeOutsideDates_dated (content : Json) :
    ¬ (DateLike.dated content).HoldsHugeOutsideDates := by
  rw [DateLike.dated, holdsHugeOutsideDates_object_iff, ← DateLike.dated, DateLike.isDateLike_dated]
  simp

end Json

namespace DateLike

mutual

/-- The value with each outermost date-like replaced by its canonical text, as far as it has one. -/
def replaced : Json → Json
  | .array items => .array (replacedItems items)
  | .object members =>
      if (Json.object members).isDateLike then
        match canonical (.object members) with
        | .ok c => .string c
        | .error _ => .object members
      else .object (replacedMembers members)
  | scalar => scalar

def replacedItems : List Json → List Json
  | [] => []
  | item :: items => replaced item :: replacedItems items

def replacedMembers : List (String × Json) → List (String × Json)
  | [] => []
  | (key, value) :: members => (key, replaced value) :: replacedMembers members

end

theorem replacedItems_eq_map (items : List Json) : replacedItems items = items.map replaced := by
  induction items with
  | nil => rfl
  | cons item items ih => rw [replacedItems, ih, List.map_cons]

theorem replacedMembers_eq_mapValues (members : List (String × Json)) :
    replacedMembers members = Entries.mapValues replaced members := by
  induction members with
  | nil => rfl
  | cons m members ih => rw [replacedMembers, ih]; rfl

theorem replaced_object {members : List (String × Json)}
    (h : (Json.object members).isDateLike = false) :
    replaced (.object members) = .object (Entries.mapValues replaced members) := by
  rw [replaced, if_neg (by simp [h]), replacedMembers_eq_mapValues]

theorem replaced_dated {content : Json} {t : Timestamp} (h : instant content = .ok t) :
    replaced (dated content) = .string t.text := by
  have hlike := isDateLike_dated content
  have hcanonical := canonical_dated_eq_ok_iff.2 ⟨t, h, rfl⟩
  rw [dated] at hlike hcanonical ⊢
  rw [replaced, if_pos hlike, hcanonical]

/-- With a further key beside its `$date` an object is no date-like, whatever its members are. -/
example : replaced (.object [("$date", dated (.number (.int 0 (by decide)))), ("by", .null)]) =
    .object [("$date", .string "1970-01-01T00:00:00.000Z"), ("by", .null)] := by
  rw [replaced_object rfl]
  rfl

/-- A date that denotes an instant is no huge number: epoch milliseconds stay far below. -/
theorem not_holdsHuge_of_instant {inner : Json} {t : Timestamp} (h : instant inner = .ok t) :
    ¬ inner.HoldsHuge := by
  cases inner with
  | string s => simp
  | number n =>
    cases n with
    | float x => simp
    | int i hi =>
      rw [Json.holdsHuge_int_iff]
      intro hhuge
      have hrange : ¬ (Timestamp.firstEpochMilli ≤ i ∧ i ≤ Timestamp.lastEpochMilli) := by
        simp only [Json.maxSigned] at hhuge
        simp only [Timestamp.firstEpochMilli, Timestamp.lastEpochMilli]
        omega
      simp [instant, Number.int?, Timestamp.ofEpochMillis?, hrange] at h
  | _ => cases h

/-- Where the dates pass, no huge integer is hidden in one of them. -/
theorem holdsHugeOutsideDates_iff_of_check {v : Json} (h : check v = .ok ()) :
    v.HoldsHugeOutsideDates ↔ v.HoldsHuge := by
  induction v using Json.induction with
  | null | bool b | number n | string s =>
    exact Json.holdsHugeOutsideDates_of_not_container (by simp) (by simp)
  | array items ih =>
    rw [check, checkItems_eq_ok_iff] at h
    rw [Json.holdsHugeOutsideDates_array_iff, Json.holdsHuge_array_iff]
    exact exists_congr fun item => and_congr_right fun hm => ih item hm (h item hm)
  | object members ih =>
    obtain ⟨content, heq⟩ | hlike := eq_dated_or (.object members)
    · rw [heq, check_dated] at h
      obtain ⟨t, ht⟩ := discard_eq_ok_iff.1 h
      rw [heq]
      apply iff_of_false (Json.not_holdsHugeOutsideDates_dated content)
      simpa [dated, Json.holdsHuge_object_iff] using not_holdsHuge_of_instant ht
    · rw [check_object hlike, checkMembers_eq_ok_iff] at h
      rw [Json.holdsHugeOutsideDates_object_iff, Json.holdsHuge_object_iff, and_iff_right hlike]
      exact exists_congr fun m => and_congr_right fun hm => ih m hm (h m hm)

end DateLike

namespace Bson

variable {α β : Type}

/-- The conversion gives the result if neither the dates nor the integers stand against it, and fails
for one of the two otherwise. -/
def ConvertsTo (dates integers : Prop) (x : Except Error α) (a : α) : Prop :=
  (dates ∧ integers ∧ x = .ok a) ∨
    (¬ dates ∧ ∃ flaw, x = .error (.malformed (.date flaw))) ∨
    (¬ integers ∧ ∃ i, x = .error (.notSupported (.integer i)))

namespace ConvertsTo

variable {dates integers dates' integers' : Prop} {x : Except Error α} {a : α}

theorem congr (h : ConvertsTo dates integers x a) (hdates : dates ↔ dates')
    (hintegers : integers ↔ integers') : ConvertsTo dates' integers' x a := by
  rwa [← hdates, ← hintegers]

theorem map (h : ConvertsTo dates integers x a) (f : α → β) :
    ConvertsTo dates integers (f <$> x) (f a) := by
  obtain ⟨hdates, hintegers, rfl⟩ | ⟨hdates, flaw, rfl⟩ | ⟨hintegers, i, rfl⟩ := h
  · exact .inl ⟨hdates, hintegers, rfl⟩
  · exact .inr (.inl ⟨hdates, flaw, rfl⟩)
  · exact .inr (.inr ⟨hintegers, i, rfl⟩)

theorem bind {f : α → Except Error β} {b : β} (h : ConvertsTo dates integers x a)
    (hf : ConvertsTo dates' integers' (f a) b) :
    ConvertsTo (dates ∧ dates') (integers ∧ integers') (x >>= f) b := by
  obtain ⟨hdates, hintegers, rfl⟩ | ⟨hdates, flaw, rfl⟩ | ⟨hintegers, i, rfl⟩ := h
  · exact hf.congr (by simp [hdates]) (by simp [hintegers])
  · exact .inr (.inl ⟨fun h => hdates h.1, flaw, rfl⟩)
  · exact .inr (.inr ⟨fun h => hintegers h.1, i, rfl⟩)

theorem mapM {f : α → Except Error β} {g : α → β} {dates integers : α → Prop} (as : List α)
    (h : ∀ a ∈ as, ConvertsTo (dates a) (integers a) (f a) (g a)) :
    ConvertsTo (∀ a ∈ as, dates a) (∀ a ∈ as, integers a) (as.mapM f) (as.map g) := by
  induction as with
  | nil => exact .inl ⟨by simp, by simp, rfl⟩
  | cons a as ih =>
    rw [List.mapM_cons, List.map_cons]
    have has := ih fun b hb => h b (by simp [hb])
    apply ((h a (by simp)).bind (has.map (g a :: ·))).congr
    · simp
    · simp

end ConvertsTo

theorem exact_convertsTo (n : Number) :
    ConvertsTo True (¬ (Json.number n).HoldsHuge) (exact n) (ofNumber n) := by
  cases n with
  | float x => exact .inl ⟨trivial, by simp, rfl⟩
  | int i h =>
    rw [Json.holdsHuge_int_iff, exact]
    split
    · next hi => exact .inr (.inr ⟨by simpa using hi, i, rfl⟩)
    · next hi => exact .inl ⟨trivial, hi, rfl⟩

theorem canonical_dated (content : Json) : canonical (DateLike.dated content) =
    (fun t => .string t.text) <$>
      (DateLike.instant content).mapError fun flaw => .malformed (.date flaw) := by
  simp only [DateLike.dated, canonical, Json.date?_eq_some_iff.2 rfl]
  rfl

theorem canonical_object {members : List (String × Json)}
    (h : (Json.object members).isDateLike = false) : canonical (.object members) =
      document <$> (Entries.sorted members).mapM fun m => (fun b => (m.1, b)) <$> canonical m.2 := by
  rw [← sequence_canonicalMembers]
  simp only [canonical, Json.isDateLike_eq_false_iff.1 h]
  rfl

theorem canonical_dated_convertsTo (content : Json) :
    ConvertsTo (DateLike.check (DateLike.dated content) = .ok ())
      (¬ (DateLike.dated content).HoldsHugeOutsideDates) (canonical (DateLike.dated content))
      (verbatim (DateLike.replaced (DateLike.dated content))) := by
  have hintegers := Json.not_holdsHugeOutsideDates_dated content
  rw [DateLike.check_dated, canonical_dated, discard_eq_ok_iff]
  cases ht : DateLike.instant content with
  | error flaw => exact .inr (.inl ⟨by simp, flaw, rfl⟩)
  | ok t =>
    rw [DateLike.replaced_dated ht]
    exact .inl ⟨⟨t, rfl⟩, hintegers, rfl⟩

theorem canonical_object_convertsTo {members : List (String × Json)}
    (hlike : (Json.object members).isDateLike = false)
    (h : ∀ m ∈ members, ConvertsTo (DateLike.check m.2 = .ok ()) (¬ m.2.HoldsHugeOutsideDates)
      (canonical m.2) (verbatim (DateLike.replaced m.2))) :
    ConvertsTo (DateLike.check (.object members) = .ok ())
      (¬ (Json.object members).HoldsHugeOutsideDates) (canonical (.object members))
      (verbatim (DateLike.replaced (.object members))) := by
  -- The conversion goes by sorted keys and the check by written ones; what decides is only which
  -- members there are.
  have hmem (m : String × Json) : m ∈ Entries.sorted members ↔ m ∈ members :=
    (Entries.sorted_perm members).mem_iff
  have hsorted := ConvertsTo.mapM (Entries.sorted members) fun m hm =>
    (h m ((hmem m).1 hm)).map fun b => (m.1, b)
  have hverbatim : verbatim (DateLike.replaced (.object members)) = .document
      ((Entries.sorted members).map fun m => (m.1, verbatim (DateLike.replaced m.2))) := by
    rw [DateLike.replaced_object hlike, verbatim, verbatimMembers_eq_mapValues,
      Entries.mapValues_mapValues, Entries.sorted_mapValues]
    rfl
  rw [canonical_object hlike, hverbatim]
  apply (hsorted.map document).congr
  · simp only [hmem, DateLike.check_object hlike, DateLike.checkMembers_eq_ok_iff]
  · simp [Json.holdsHugeOutsideDates_object_iff, hlike, hmem]

/-- Every value is converted to what its replacement is as it stands. -/
theorem canonical_convertsTo (v : Json) :
    ConvertsTo (DateLike.check v = .ok ()) (¬ v.HoldsHugeOutsideDates) (canonical v)
      (verbatim (DateLike.replaced v)) := by
  induction v using Json.induction with
  | null | bool b | string s =>
    exact .inl ⟨rfl, by simp [Json.holdsHugeOutsideDates_of_not_container], rfl⟩
  | number n =>
    apply (exact_convertsTo n).congr
    · simp [DateLike.check]
    · rw [Json.holdsHugeOutsideDates_of_not_container (by simp) (by simp)]
  | array items ih =>
    rw [canonical, canonicalItems_eq_mapM, DateLike.replaced, DateLike.replacedItems_eq_map, verbatim,
      verbatimItems_eq_map, List.map_map]
    apply ((ConvertsTo.mapM items ih).map Bson.array).congr
    · rw [DateLike.check, DateLike.checkItems_eq_ok_iff]
    · simp [Json.holdsHugeOutsideDates_array_iff]
  | object members ih =>
    obtain ⟨content, heq⟩ | hlike := DateLike.eq_dated_or (.object members)
    · exact heq ▸ canonical_dated_convertsTo content
    · exact canonical_object_convertsTo hlike ih

/-- A value is converted exactly if its dates pass the check and no huge integer stands outside of
them. Date and integer failures are told apart as long as there is only one of the two kinds. -/
theorem canonical_eq_verbatim_replaced (v : Json) :
    ((∃ b, canonical v = .ok b) ↔ DateLike.check v = .ok () ∧ ¬ v.HoldsHugeOutsideDates) ∧
      (∀ b, canonical v = .ok b → b = verbatim (DateLike.replaced v)) ∧
      (DateLike.check v = .ok () → v.HoldsHugeOutsideDates →
        ∃ i, canonical v = .error (.notSupported (.integer i))) ∧
      (DateLike.check v ≠ .ok () → ¬ v.HoldsHugeOutsideDates →
        ∃ flaw, canonical v = .error (.malformed (.date flaw))) := by
  obtain ⟨hdates, hintegers, hok⟩ | ⟨hdates, flaw, herror⟩ | ⟨hintegers, i, herror⟩ :=
    canonical_convertsTo v
  · refine ⟨iff_of_true ⟨_, hok⟩ ⟨hdates, hintegers⟩, fun b hb => ?_, fun _ h => absurd h hintegers,
      fun h => absurd hdates h⟩
    exact Except.ok.inj (hb.symm.trans hok)
  · refine ⟨iff_of_false (by simp [herror]) fun h => hdates h.1, by simp [herror],
      fun h => absurd h hdates, fun _ _ => ⟨flaw, herror⟩⟩
  · refine ⟨iff_of_false (by simp [herror]) fun h => hintegers h.2, by simp [herror],
      fun _ _ => ⟨i, herror⟩, fun _ h => absurd h hintegers⟩

/-- An integer of sixty-four bits beside the date 1970-01-01. -/
theorem canonical_huge_beside_date : ∃ h h' i,
    canonical (.array [DateLike.dated (.number (.int 0 h)), .number (.int 0x8000000000000000 h')]) =
      .error (.notSupported (.integer i)) := by
  refine ⟨by decide, by decide, ?_⟩
  apply (canonical_eq_verbatim_replaced _).2.2.1 rfl
  exact ⟨0x8000000000000000, by decide, by decide, .item (by simp) .self⟩

end Bson

end DocQuery
