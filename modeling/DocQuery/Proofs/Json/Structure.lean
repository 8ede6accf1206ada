import DocQuery.Bson
import DocQuery.Proofs.Entries

/-! The structure of JSON values: induction over items and members, the values that occur within a
value, and the conversions as traversals of lists. -/
namespace DocQuery

namespace Json

@[elab_as_elim]
theorem induction {motive : Json → Prop} (null : motive .null) (bool : ∀ b, motive (.bool b))
    (number : ∀ n, motive (.number n)) (string : ∀ s, motive (.string s))
    (array : ∀ items, (∀ item ∈ items, motive item) → motive (.array items))
    (object : ∀ members, (∀ m ∈ members, motive m.2) → motive (.object members)) (v : Json) :
    motive v := by
  refine @Json.rec motive (fun items => ∀ item ∈ items, motive item)
    (fun members => ∀ m ∈ members, motive m.2) (fun m => motive m.2)
    null bool number string array object ?_ ?_ ?_ ?_ ?_ v
  · simp
  · intro item items hitem hitems
    exact List.forall_mem_cons.2 ⟨hitem, hitems⟩
  · simp
  · intro m members hm hmembers
    exact List.forall_mem_cons.2 ⟨hm, hmembers⟩
  · intro _ _ h
    exact h

/-- A node is an object that lists further nodes in the arrays that its members hold. -/
@[elab_as_elim]
theorem nodeInduction {motive : Json → Prop}
    (other : ∀ v, (∀ members, v ≠ .object members) → motive v)
    (object : ∀ members, (∀ m ∈ members, ∀ items, m.2 = .array items → ∀ item ∈ items,
      motive item) → motive (.object members)) (v : Json) : motive v := by
  -- An array is no node, so the induction carries its items along.
  have h : motive v ∧ ∀ items, v = .array items → ∀ item ∈ items, motive item := by
    induction v using Json.induction with
    | null | bool b | number n | string s =>
      exact ⟨other _ (by simp), by simp⟩
    | array items ih =>
      refine ⟨other _ (by simp), ?_⟩
      intro items' heq item hm
      cases heq
      exact (ih item hm).1
    | object members ih => exact ⟨object members fun m hm => (ih m hm).2, by simp⟩
  exact h.1

/-- A value occurs within itself, and within whatever holds a value that it occurs within. -/
inductive Within (x : Json) : Json → Prop
  | self : Within x x
  | item {items : List Json} {item : Json} :
      item ∈ items → Within x item → Within x (.array items)
  | member {members : List (String × Json)} {key : String} {value : Json} :
      (key, value) ∈ members → Within x value → Within x (.object members)

theorem within_array_iff {x : Json} {items : List Json} :
    Within x (.array items) ↔ x = .array items ∨ ∃ item ∈ items, Within x item := by
  constructor
  · rintro (_ | ⟨hm, h⟩)
    · exact .inl rfl
    · exact .inr ⟨_, hm, h⟩
  · rintro (rfl | ⟨item, hm, h⟩)
    · exact .self
    · exact .item hm h

theorem within_object_iff {x : Json} {members : List (String × Json)} :
    Within x (.object members) ↔ x = .object members ∨ ∃ m ∈ members, Within x m.2 := by
  constructor
  · rintro (_ | _ | ⟨hm, h⟩)
    · exact .inl rfl
    · exact .inr ⟨_, hm, h⟩
  · rintro (rfl | ⟨m, hm, h⟩)
    · exact .self
    · exact .member hm h

section Objects

variable {Q : List (String × Json) → Prop}

theorem forall_objects_of_not_container {v : Json} (hobject : ∀ members, v ≠ .object members)
    (harray : ∀ items, v ≠ .array items) : ∀ members, Within (.object members) v → Q members := by
  intro members hw
  cases hw with
  | self => exact absurd rfl (hobject members)
  | item => exact absurd rfl (harray _)
  | member => exact absurd rfl (hobject _)

theorem forall_objects_array_iff {items : List Json} :
    (∀ members, Within (.object members) (.array items) → Q members) ↔
      ∀ item ∈ items, ∀ members, Within (.object members) item → Q members := by
  constructor
  · intro h item hm members hw
    exact h members (.item hm hw)
  · intro h members hw
    obtain ⟨item, hm, hwithin⟩ := (within_array_iff.1 hw).resolve_left (by simp)
    exact h item hm members hwithin

theorem forall_objects_object_iff {members : List (String × Json)} :
    (∀ inner, Within (.object inner) (.object members) → Q inner) ↔
      Q members ∧ ∀ m ∈ members, ∀ inner, Within (.object inner) m.2 → Q inner := by
  constructor
  · intro h
    exact ⟨h members .self, fun m hm inner hw => h inner (.member hm hw)⟩
  · rintro ⟨hmembers, hinner⟩ inner hw
    rcases within_object_iff.1 hw with heq | ⟨m, hm, hwithin⟩
    · cases heq
      exact hmembers
    · exact hinner m hm inner hwithin

end Objects

/-- An integer that no signed 64-bit number holds occurs within the value. -/
def HoldsHuge (v : Json) : Prop :=
  ∃ i h, maxSigned < i ∧ Within (.number (.int i h)) v

@[simp] theorem not_holdsHuge_null : ¬ HoldsHuge .null := by
  intro h'
  rcases h' with ⟨i, h, hi, hw⟩
  cases hw

@[simp] theorem not_holdsHuge_bool (b : Bool) : ¬ HoldsHuge (.bool b) := by
  intro h'
  rcases h' with ⟨i, h, hi, hw⟩
  cases hw

@[simp] theorem not_holdsHuge_string (s : String) : ¬ HoldsHuge (.string s) := by
  intro h'
  rcases h' with ⟨i, h, hi, hw⟩
  cases hw

@[simp] theorem not_holdsHuge_float (x : Binary64) : ¬ HoldsHuge (.number (.float x)) := by
  intro h'
  rcases h' with ⟨i, h, hi, hw⟩
  cases hw

@[simp] theorem holdsHuge_int_iff {i : Int} {h} :
    HoldsHuge (.number (.int i h)) ↔ maxSigned < i := by
  constructor
  · rintro ⟨j, h', hj, hw⟩
    cases hw
    exact hj
  · intro hi
    exact ⟨i, h, hi, .self⟩

theorem holdsHuge_array_iff {items : List Json} :
    HoldsHuge (.array items) ↔ ∃ item ∈ items, HoldsHuge item := by
  constructor
  · intro h'
    rcases h' with ⟨i, h, hi, hw⟩
    obtain ⟨item, hm, hw⟩ := (within_array_iff.1 hw).resolve_left (by simp)
    exact ⟨item, hm, i, h, hi, hw⟩
  · intro h'
    rcases h' with ⟨item, hm, i, h, hi, hw⟩
    exact ⟨i, h, hi, .item hm hw⟩

theorem holdsHuge_object_iff {members : List (String × Json)} :
    HoldsHuge (.object members) ↔ ∃ m ∈ members, HoldsHuge m.2 := by
  constructor
  · intro h'
    rcases h' with ⟨i, h, hi, hw⟩
    obtain ⟨m, hm, hw⟩ := (within_object_iff.1 hw).resolve_left (by simp)
    exact ⟨m, hm, i, h, hi, hw⟩
  · intro h'
    rcases h' with ⟨m, hm, i, h, hi, hw⟩
    exact ⟨i, h, hi, .member hm hw⟩

theorem date?_eq_some_iff {members : List (String × Json)} {inner : Json} :
    date? (.object members) = some inner ↔ members = [(dateKey, inner)] := by
  match members with
  | [] => simp [date?]
  | [(key, value)] => simp [date?]
  | _ :: _ :: _ => simp [date?]

theorem isDateLike_eq_false_iff {v : Json} : v.isDateLike = false ↔ v.date? = none := by
  rw [isDateLike, Option.isSome_eq_false_iff, Option.isNone_iff_eq_none]

end Json

namespace DateLike

/-- The value `{"$date": content}`. -/
def dated (content : Json) : Json := .object [(dateKey, content)]

@[simp] theorem date?_dated (content : Json) : (dated content).date? = some content :=
  Json.date?_eq_some_iff.2 rfl

@[simp] theorem isDateLike_dated (content : Json) : (dated content).isDateLike = true := by
  rw [Json.isDateLike, date?_dated]
  rfl

theorem canonical_dated_eq_ok_iff {content : Json} {c : String} :
    canonical (dated content) = .ok c ↔ ∃ t, instant content = .ok t ∧ t.text = c := by
  simp only [canonical, date?_dated, bind_eq_ok_iff, pure_eq_ok, Except.ok.injEq]

/-- A value is the date-like of its content, or none at all. -/
theorem eq_dated_or (v : Json) : (∃ content, v = dated content) ∨ v.isDateLike = false := by
  cases hdate : v.date? with
  | none => exact .inr (Json.isDateLike_eq_false_iff.2 hdate)
  | some content =>
    cases v with
    | object members => exact .inl ⟨content, congrArg Json.object (Json.date?_eq_some_iff.1 hdate)⟩
    | _ => cases hdate

theorem canonical_eq_ok_iff {v : Json} {c : String} :
    canonical v = .ok c ↔ ∃ content t, v = dated content ∧ instant content = .ok t ∧ t.text = c := by
  constructor
  · intro h
    obtain ⟨content, rfl⟩ | hlike := eq_dated_or v
    · obtain ⟨t, ht, htext⟩ := canonical_dated_eq_ok_iff.1 h
      exact ⟨content, t, rfl, ht, htext⟩
    · simp [canonical, Json.isDateLike_eq_false_iff.1 hlike] at h
  · rintro ⟨content, t, rfl, ht, htext⟩
    exact canonical_dated_eq_ok_iff.2 ⟨t, ht, htext⟩

theorem check_dated (content : Json) : check (dated content) = discard (instant content) := by
  simp only [dated, check, Json.date?_eq_some_iff.2 rfl]

theorem check_object {members : List (String × Json)}
    (h : (Json.object members).isDateLike = false) :
    check (.object members) = checkMembers members := by
  simp only [check, Json.isDateLike_eq_false_iff.1 h]

theorem checkItems_eq_ok_iff {items : List Json} :
    checkItems items = .ok () ↔ ∀ item ∈ items, check item = .ok () := by
  induction items with
  | nil => simp [checkItems]
  | cons item items ih => rw [checkItems, andThen_eq_ok_iff, List.forall_mem_cons, ih]

theorem checkMembers_eq_ok_iff {members : List (String × Json)} :
    checkMembers members = .ok () ↔ ∀ m ∈ members, check m.2 = .ok () := by
  induction members with
  | nil => simp [checkMembers]
  | cons m members ih => rw [checkMembers, andThen_eq_ok_iff, List.forall_mem_cons, ih]

end DateLike

namespace Bson

theorem verbatimItems_eq_map (items : List Json) : verbatimItems items = items.map verbatim := by
  induction items with
  | nil => rfl
  | cons item items ih => rw [verbatimItems, ih, List.map_cons]

theorem verbatimMembers_eq_mapValues (members : List (String × Json)) :
    verbatimMembers members = Entries.mapValues verbatim members := by
  induction members with
  | nil => rfl
  | cons m members ih => rw [verbatimMembers, ih]; rfl

theorem canonicalItems_eq_mapM (items : List Json) :
    canonicalItems items = items.mapM canonical := by
  induction items with
  | nil => rfl
  | cons item items ih => rw [canonicalItems, ih, List.mapM_cons]

theorem canonicalMembers_eq_mapValues (members : List (String × Json)) :
    canonicalMembers members = Entries.mapValues canonical members := by
  induction members with
  | nil => rfl
  | cons m members ih => rw [canonicalMembers, ih]; rfl

theorem sequence_canonicalMembers (members : List (String × Json)) :
    (Entries.sorted (canonicalMembers members)).sequence =
      (Entries.sorted members).mapM fun m => (fun b => (m.1, b)) <$> canonical m.2 := by
  rw [canonicalMembers_eq_mapValues, Entries.sorted_mapValues, Entries.sequence_eq_mapM,
    Entries.mapValues, List.mapM_map]
  rfl

end Bson

end DocQuery
