import DocQuery.Proofs.Bson.Dates
import DocQuery.Proofs.Json.Order

/-! What BSON keeps of a JSON value: everything but the order of keys, as long as there is neither a
date nor an integer that is too large. -/
namespace DocQuery

namespace Json

/-- The other value holds the same as this one: they differ in the order of keys only, and the keys
of the other one stand in code-point order at every depth. -/
structure Keeps (v written : Json) : Prop where
  reordered : v.Reordered written
  inOrder : ∀ members, Within (.object members) written →
    (Entries.keys members).Pairwise (· ≤ ·)

theorem Reordered.items {f : Json → Json} {items : List Json}
    (h : ∀ item ∈ items, Reordered item (f item)) :
    Reordered (.array items) (.array (items.map f)) := by
  have hsuffix : ∀ before,
      Reordered (.array (before ++ items)) (.array (before ++ items.map f)) := by
    induction items with
    | nil =>
      intro before
      exact .refl _
    | cons item items ih =>
      intro before
      have hrest := ih (fun other hm => h other (List.mem_cons_of_mem _ hm)) (before ++ [f item])
      rw [List.append_assoc, List.append_assoc] at hrest
      exact (Reordered.item (h item List.mem_cons_self)).trans hrest
  exact hsuffix []

theorem Reordered.members {f : Json → Json} {members : List (String × Json)}
    (h : ∀ m ∈ members, Reordered m.2 (f m.2)) :
    Reordered (.object members) (.object (Entries.mapValues f members)) := by
  have hsuffix : ∀ before,
      Reordered (.object (before ++ members)) (.object (before ++ Entries.mapValues f members)) := by
    induction members with
    | nil =>
      intro before
      exact .refl _
    | cons m members ih =>
      intro before
      have hrest := ih (fun other hm => h other (List.mem_cons_of_mem _ hm))
        (before ++ [(m.1, f m.2)])
      rw [List.append_assoc, List.append_assoc] at hrest
      exact (Reordered.member (h m List.mem_cons_self)).trans hrest
  exact hsuffix []

theorem reordered_ordered (v : Json) : v.Reordered v.ordered := by
  induction v using Json.induction with
  | null | bool b | number n | string s => exact .refl _
  | array items ih =>
    rw [ordered_array]
    exact .items ih
  | object members ih =>
    rw [ordered_object]
    exact (Reordered.members ih).trans (.keys (Entries.sorted_perm _).symm)

theorem keys_within_ordered (v : Json) : ∀ members, Within (.object members) v.ordered →
    (Entries.keys members).Pairwise (· ≤ ·) := by
  induction v using Json.induction with
  | null | bool b | number n | string s =>
    exact forall_objects_of_not_container (by simp [ordered]) (by simp [ordered])
  | array items ih =>
    rw [ordered_array]
    exact forall_objects_array_iff.2 (List.forall_mem_map.2 ih)
  | object members ih =>
    rw [ordered_object]
    refine forall_objects_object_iff.2 ⟨List.pairwise_map.2 (Entries.sorted_pairwise _), ?_⟩
    intro m hm
    obtain ⟨source, hsource, rfl⟩ := mem_sortedMembers_iff.1 hm
    exact ih source hsource

theorem keeps_ordered (v : Json) : v.Keeps v.ordered :=
  ⟨reordered_ordered v, keys_within_ordered v⟩

/-- No object within the value is a date-like. -/
def IsDateFree (v : Json) : Prop :=
  ∀ members, Within (.object members) v → (Json.object members).isDateLike = false

@[simp] theorem isDateFree_number (n : Number) : IsDateFree (.number n) :=
  forall_objects_of_not_container (by simp) (by simp)

theorem isDateFree_array_iff {items : List Json} :
    IsDateFree (.array items) ↔ ∀ item ∈ items, item.IsDateFree :=
  forall_objects_array_iff

theorem isDateFree_object_iff {members : List (String × Json)} :
    IsDateFree (.object members) ↔
      (Json.object members).isDateLike = false ∧ ∀ m ∈ members, m.2.IsDateFree :=
  forall_objects_object_iff

end Json

theorem DateLike.replaced_of_isDateFree {v : Json} (h : v.IsDateFree) : replaced v = v := by
  induction v using Json.induction with
  | null | bool b | number n | string s => rfl
  | array items ih =>
    have hitems := Json.isDateFree_array_iff.1 h
    rw [replaced, replacedItems_eq_map, List.map_congr_left fun item hm => ih item hm (hitems item hm),
      List.map_id']
  | object members ih =>
    obtain ⟨hlike, hmembers⟩ := Json.isDateFree_object_iff.1 h
    have hsame : Entries.mapValues replaced members = Entries.mapValues id members :=
      Entries.mapValues_congr fun m hm => ih m hm (hmembers m hm)
    rw [replaced_object hlike, hsame]
    simp [Entries.mapValues]

namespace Bson

theorem itemsToJson_eq_map (items : List Bson) : itemsToJson items = items.map toJson := by
  induction items with
  | nil => rfl
  | cons item items ih => rw [itemsToJson, ih, List.map_cons]

theorem entriesToJson_eq_mapValues (entries : Entries Bson) :
    entriesToJson entries = Entries.mapValues toJson entries := by
  induction entries with
  | nil => rfl
  | cons e entries ih => rw [entriesToJson, ih]; rfl

/-- An integer is stored in a form that holds it, unless it exceeds the signed range. -/
theorem toJson_ofInt {i : Int} (h) (hi : ¬ Json.maxSigned < i) :
    (ofInt i).toJson = .number (.int i h) := by
  unfold ofInt
  simp only [Json.maxSigned] at hi
  split
  · next hnarrow =>
    have hvalue : (Int32.ofInt i).toInt = i := Int32.toInt_ofInt_of_le (by omega) (by omega)
    simp only [toJson, Number.ofInt32, hvalue]
  · rw [if_pos (by omega)]
    have hvalue : (Int64.ofInt i).toInt = i := Int64.toInt_ofInt_of_le (by omega) (by omega)
    simp only [toJson, Number.ofInt64, hvalue]

/-- Taken as it stands, dates included, a value says in JSON what it said. -/
theorem toJson_verbatim {v : Json} (h : ¬ v.HoldsHuge) : (verbatim v).toJson = v.ordered := by
  induction v using Json.induction with
  | null | bool b | string s => rfl
  | number n =>
    cases n with
    | float x => rfl
    | int i hrange => exact toJson_ofInt hrange (by simpa using h)
  | array items ih =>
    rw [Json.holdsHuge_array_iff] at h
    rw [verbatim, verbatimItems_eq_map, toJson, itemsToJson_eq_map, List.map_map,
      Json.ordered_array]
    congr 1
    apply List.map_congr_left
    intro item hm
    exact ih item hm fun hhuge => h ⟨item, hm, hhuge⟩
  | object members ih =>
    rw [Json.holdsHuge_object_iff] at h
    rw [verbatim, verbatimMembers_eq_mapValues, toJson, entriesToJson_eq_mapValues,
      ← Entries.sorted_mapValues, Entries.mapValues_mapValues, Json.ordered_object,
      Json.sortedMembers]
    congr 2
    apply Entries.mapValues_congr
    intro m hm
    exact ih m hm fun hhuge => h ⟨m, hm, hhuge⟩

/-- Without dates, what a value is stored as says in JSON what the value says. -/
theorem toJson_canonical {v : Json} (hdates : v.IsDateFree) {b : Bson} (hb : canonical v = .ok b) :
    b.toJson = v.ordered := by
  obtain ⟨hcheck, hinteger, hok⟩ | ⟨-, flaw, herror⟩ | ⟨-, i, herror⟩ := canonical_convertsTo v
  · rw [DateLike.replaced_of_isDateFree hdates, hb] at hok
    rw [DateLike.holdsHugeOutsideDates_iff_of_check hcheck] at hinteger
    cases hok
    exact toJson_verbatim hinteger
  · cases hb.symm.trans herror
  · cases hb.symm.trans herror

theorem toJson_ofRecord {record : Dictionary} (hdates : ∀ v ∈ record.entries.values, v.IsDateFree)
    {d : Document} (hd : ofRecord record = .ok d) :
    (document d).toJson = record.toJson.ordered := by
  rw [ofRecord, sequence_canonicalMembers] at hd
  rw [toJson, entriesToJson_eq_mapValues, Dictionary.toJson, Json.ordered_object,
    Json.sortedMembers_eq_mapValues]
  congr 1
  apply map_of_mapM hd
  intro m hm e he
  obtain ⟨b, hb, rfl⟩ := map_eq_ok_iff.1 he
  have hvalue := hdates m.2 (List.mem_map_of_mem ((Entries.sorted_perm _).mem_iff.1 hm))
  rw [toJson_canonical hvalue hb]

end Bson

end DocQuery
