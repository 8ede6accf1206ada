import DocQuery.Dictionary
import DocQuery.Proofs.Json.Structure

/-! Values up to the order of keys. Where the keys of each object are distinct, sorting the keys at
every depth gives the same value for all orders, and the conversions to BSON cannot tell it from the
value that it was made of. -/
namespace DocQuery

namespace Json

mutual

/-- The same value with the keys of each object in code-point order. -/
def ordered : Json → Json
  | .null => .null
  | .bool b => .bool b
  | .number n => .number n
  | .string s => .string s
  | .array items => .array (orderedItems items)
  | .object members => .object (Entries.sorted (orderedMembers members))

def orderedItems : List Json → List Json
  | [] => []
  | item :: items => ordered item :: orderedItems items

def orderedMembers : List (String × Json) → Entries Json
  | [] => []
  | (key, value) :: members => (key, ordered value) :: orderedMembers members

end

theorem ordered_array (items : List Json) :
    ordered (.array items) = .array (items.map ordered) := by
  rw [ordered]
  congr 1
  induction items with
  | nil => rfl
  | cons item items ih => rw [orderedItems, ih, List.map_cons]

theorem orderedMembers_eq_mapValues (members : List (String × Json)) :
    orderedMembers members = Entries.mapValues ordered members := by
  induction members with
  | nil => rfl
  | cons m members ih => rw [orderedMembers, ih]; rfl

/-- The members of an object after its keys were sorted at every depth. -/
def sortedMembers (members : Entries Json) : Entries Json :=
  Entries.sorted (Entries.mapValues ordered members)

theorem ordered_object (members : List (String × Json)) :
    ordered (.object members) = .object (sortedMembers members) := by
  rw [ordered, orderedMembers_eq_mapValues, sortedMembers]

theorem ordered_ne_array {v : Json} (h : ∀ items, v ≠ .array items) :
    ∀ items, v.ordered ≠ .array items := by
  cases v with
  | array items => exact absurd rfl (h items)
  | object members => simp [ordered_object]
  | _ => simp [ordered]

theorem sortedMembers_eq_mapValues (members : Entries Json) :
    sortedMembers members = Entries.mapValues ordered (Entries.sorted members) :=
  Entries.sorted_mapValues ordered members

theorem sorted_sortedMembers (members : Entries Json) :
    Entries.sorted (sortedMembers members) = sortedMembers members :=
  Entries.sorted_sorted _

theorem keys_sortedMembers (members : Entries Json) :
    (Entries.keys (sortedMembers members)).Perm (Entries.keys members) := by
  have h := Entries.keys_perm (Entries.sorted_perm (Entries.mapValues ordered members))
  rwa [Entries.keys_mapValues] at h

@[simp] theorem length_sortedMembers (members : Entries Json) :
    (sortedMembers members).length = members.length := by
  simp [sortedMembers, (Entries.sorted_perm _).length_eq, Entries.mapValues]

@[simp] theorem sortedMembers_nil : sortedMembers [] = [] :=
  List.eq_nil_of_length_eq_zero (length_sortedMembers [])

@[simp] theorem sortedMembers_singleton (key : String) (v : Json) :
    sortedMembers [(key, v)] = [(key, v.ordered)] :=
  List.mergeSort_singleton _

theorem ordered_eq_empty_iff {v : Json} : v.ordered = .object [] ↔ v = .object [] := by
  cases v with
  | object members =>
    rw [ordered_object, object.injEq, object.injEq, ← List.length_eq_zero_iff, length_sortedMembers,
      List.length_eq_zero_iff]
  | array items => simp [ordered_array]
  | _ => simp [ordered]

/-- A conversion that looks at sorted members only cannot tell in which order they were given. -/
theorem sorted_mapValues_sortedMembers {α : Type} {f : Json → α} {members : Entries Json}
    (h : ∀ m ∈ members, f m.2.ordered = f m.2) :
    Entries.sorted (Entries.mapValues f (sortedMembers members)) =
      Entries.sorted (Entries.mapValues f members) := by
  rw [Entries.sorted_mapValues, Entries.sorted_mapValues, sorted_sortedMembers,
    sortedMembers_eq_mapValues, Entries.mapValues_mapValues]
  exact Entries.mapValues_congr fun m hm => h m ((Entries.sorted_perm members).mem_iff.1 hm)

theorem mem_sortedMembers_iff {members : Entries Json} {x : String × Json} :
    x ∈ sortedMembers members ↔ ∃ m ∈ members, x = (m.1, m.2.ordered) := by
  rw [sortedMembers, (Entries.sorted_perm _).mem_iff, Entries.mapValues, List.mem_map]
  simp only [eq_comm]

/-- No object within the value holds a key twice. -/
def KeysDistinct (v : Json) : Prop :=
  ∀ members, Within (.object members) v → (Entries.keys members).Nodup

@[simp] theorem keysDistinct_null : KeysDistinct .null :=
  forall_objects_of_not_container (by simp) (by simp)

@[simp] theorem keysDistinct_bool (b : Bool) : KeysDistinct (.bool b) :=
  forall_objects_of_not_container (by simp) (by simp)

@[simp] theorem keysDistinct_number (n : Number) : KeysDistinct (.number n) :=
  forall_objects_of_not_container (by simp) (by simp)

@[simp] theorem keysDistinct_string (s : String) : KeysDistinct (.string s) :=
  forall_objects_of_not_container (by simp) (by simp)

theorem keysDistinct_array_iff {items : List Json} :
    KeysDistinct (.array items) ↔ ∀ item ∈ items, KeysDistinct item :=
  forall_objects_array_iff

theorem keysDistinct_object_iff {members : List (String × Json)} :
    KeysDistinct (.object members) ↔
      (Entries.keys members).Nodup ∧ ∀ m ∈ members, KeysDistinct m.2 :=
  forall_objects_object_iff

theorem get?_sortedMembers {members : Entries Json} (h : (Entries.keys members).Nodup)
    (key : String) : (sortedMembers members).get? key = (members.get? key).map ordered := by
  have hnodup : (Entries.keys (Entries.mapValues ordered members)).Nodup := by simpa using h
  rw [sortedMembers, ← Entries.get?_eq_of_perm hnodup (Entries.sorted_perm _).symm,
    Entries.get?_mapValues]

theorem keysDistinct_of_get? {members : List (String × Json)} {key : String} {v : Json}
    (h : KeysDistinct (.object members)) (hv : Entries.get? members key = some v) :
    v.KeysDistinct := by
  obtain ⟨hnodup, hmembers⟩ := keysDistinct_object_iff.1 h
  exact hmembers _ ((Entries.get?_eq_some_iff hnodup).1 hv)

/-- Equal up to the order of keys in objects at any depth. -/
inductive Reordered : Json → Json → Prop
  | refl (v : Json) : Reordered v v
  | keys {members members' : List (String × Json)} :
      members.Perm members' → Reordered (.object members) (.object members')
  | item {before after : List Json} {v w : Json} : Reordered v w →
      Reordered (.array (before ++ v :: after)) (.array (before ++ w :: after))
  | member {before after : List (String × Json)} {key : String} {v w : Json} : Reordered v w →
      Reordered (.object (before ++ (key, v) :: after)) (.object (before ++ (key, w) :: after))
  | trans {u v w : Json} : Reordered u v → Reordered v w → Reordered u w

/-- The order of keys is all that is lost by sorting them. -/
theorem ordered_eq_of_reordered {v w : Json} (h : Reordered v w) (hv : v.KeysDistinct) :
    v.ordered = w.ordered ∧ w.KeysDistinct := by
  induction h with
  | refl v => exact ⟨rfl, hv⟩
  | @keys members members' hperm =>
    obtain ⟨hnodup, hmembers⟩ := keysDistinct_object_iff.1 hv
    have hmap : (Entries.mapValues ordered members).Perm (Entries.mapValues ordered members') :=
      hperm.map _
    refine ⟨?_, keysDistinct_object_iff.2 ⟨(Entries.keys_perm hperm).nodup_iff.1 hnodup, ?_⟩⟩
    · rw [ordered_object, ordered_object, sortedMembers,
        Entries.sorted_eq_of_perm (by simpa using hnodup) hmap, sortedMembers]
    · intro m hm
      exact hmembers m (hperm.mem_iff.2 hm)
  | item h ih =>
    rw [keysDistinct_array_iff, List.forall_mem_append, List.forall_mem_cons] at hv
    obtain ⟨hbefore, hvalue, hafter⟩ := hv
    obtain ⟨heq, hw⟩ := ih hvalue
    refine ⟨by simp [ordered_array, heq], ?_⟩
    rw [keysDistinct_array_iff, List.forall_mem_append, List.forall_mem_cons]
    exact ⟨hbefore, hw, hafter⟩
  | member h ih =>
    rw [keysDistinct_object_iff, List.forall_mem_append, List.forall_mem_cons] at hv
    obtain ⟨hnodup, hbefore, hvalue, hafter⟩ := hv
    obtain ⟨heq, hw⟩ := ih hvalue
    refine ⟨by simp [ordered_object, sortedMembers, Entries.mapValues, heq], ?_⟩
    rw [keysDistinct_object_iff, List.forall_mem_append, List.forall_mem_cons]
    exact ⟨by simpa [Entries.keys] using hnodup, hbefore, hw, hafter⟩
  | trans _ _ ihu ihv =>
    obtain ⟨huv, hv'⟩ := ihu hv
    obtain ⟨hvw, hw⟩ := ihv hv'
    exact ⟨huv.trans hvw, hw⟩

theorem date?_ordered (v : Json) : v.ordered.date? = v.date?.map ordered := by
  cases v with
  | object members =>
    apply Option.ext
    intro inner
    rw [ordered_object, date?_eq_some_iff, sortedMembers, Entries.sorted_eq_singleton_iff,
      Option.map_eq_some_iff]
    simp only [date?_eq_some_iff]
    match members with
    | [] => simp [Entries.mapValues]
    | [(key, value)] => simp [Entries.mapValues, and_assoc, eq_comm]
    | _ :: _ :: _ => simp [Entries.mapValues]
  | _ => rfl

@[simp] theorem isDateLike_ordered (v : Json) : v.ordered.isDateLike = v.isDateLike := by
  rw [isDateLike, isDateLike, date?_ordered, Option.isSome_map]

end Json

namespace DateLike

theorem instant_ordered (v : Json) : (instant v.ordered).toOption = (instant v).toOption := by
  cases v <;> rfl

theorem check_ordered_iff (v : Json) : check v.ordered = .ok () ↔ check v = .ok () := by
  induction v using Json.induction with
  | null | bool b | number n | string s => exact Iff.rfl
  | array items ih =>
    rw [Json.ordered_array, check, check, checkItems_eq_ok_iff, checkItems_eq_ok_iff]
    simp only [List.forall_mem_map]
    exact ⟨fun h item hm => (ih item hm).1 (h item hm), fun h item hm => (ih item hm).2 (h item hm)⟩
  | object members ih =>
    have hdate := Json.date?_ordered (.object members)
    rw [Json.ordered_object] at hdate ⊢
    rw [check, check, hdate]
    cases Json.date? (.object members) with
    | some inner =>
      rw [Option.map_some]
      dsimp only
      rw [discard_eq_ok_iff, discard_eq_ok_iff]
      simp only [← toOption_eq_some_iff, instant_ordered]
    | none =>
      simp only [Option.map_none, checkMembers_eq_ok_iff, Json.mem_sortedMembers_iff]
      constructor
      · intro h m hm
        exact (ih m hm).1 (h _ ⟨m, hm, rfl⟩)
      · rintro h _ ⟨m, hm, rfl⟩
        exact (ih m hm).2 (h m hm)

end DateLike

namespace Bson

theorem verbatim_ordered (v : Json) : verbatim v.ordered = verbatim v := by
  induction v using Json.induction with
  | null | bool b | number n | string s => rfl
  | array items ih =>
    rw [Json.ordered_array, verbatim, verbatim, verbatimItems_eq_map, verbatimItems_eq_map,
      List.map_map]
    exact congrArg Bson.array (List.map_congr_left ih)
  | object members ih =>
    rw [Json.ordered_object, verbatim, verbatim, verbatimMembers_eq_mapValues,
      verbatimMembers_eq_mapValues, Json.sorted_mapValues_sortedMembers ih]

theorem sequence_sortedMembers {members : Entries Json}
    (h : ∀ m ∈ members, (canonical m.2.ordered).toOption = (canonical m.2).toOption) :
    (Entries.sorted (canonicalMembers (Json.sortedMembers members))).sequence.toOption =
      (Entries.sorted (canonicalMembers members)).sequence.toOption := by
  rw [sequence_canonicalMembers, sequence_canonicalMembers, Json.sorted_sortedMembers,
    Json.sortedMembers_eq_mapValues]
  apply toOption_mapM_eq
  intro m hm
  rw [toOption_map, toOption_map, h m ((Entries.sorted_perm members).mem_iff.1 hm)]

theorem canonical_ordered (v : Json) :
    (canonical v.ordered).toOption = (canonical v).toOption := by
  induction v using Json.induction with
  | null | bool b | number n | string s => rfl
  | array items ih =>
    rw [Json.ordered_array, canonical, canonical, canonicalItems_eq_mapM, canonicalItems_eq_mapM,
      toOption_bind, toOption_bind, toOption_mapM_eq ih]
  | object members ih =>
    have hdate := Json.date?_ordered (.object members)
    rw [Json.ordered_object] at hdate ⊢
    rw [canonical, canonical, hdate]
    cases Json.date? (.object members) with
    | some inner =>
      simp only [Option.map_some, toOption_bind, toOption_mapError, DateLike.instant_ordered]
    | none =>
      simp only [Option.map_none, toOption_bind, sequence_sortedMembers ih]

end Bson

namespace Dictionary

/-- The same dictionary with its keys, and those of the objects within it, in code-point order. -/
def ordered (d : Dictionary) : Dictionary :=
  ⟨Json.sortedMembers d.entries, Entries.keys_nodup_sorted (by simpa using d.distinct)⟩

/-- Reading the members of an object as a dictionary keeps them, in either order. -/
theorem ofList_sortedMembers {members : Entries Json} (h : (Entries.keys members).Nodup) :
    ofList (Json.sortedMembers members) = (ofList members).ordered := by
  have hsorted : (Entries.keys (Json.sortedMembers members)).Nodup :=
    Entries.keys_nodup_sorted (by simpa using h)
  simp only [ofList, ordered, Entries.ofList_of_nodup h, Entries.ofList_of_nodup hsorted]

end Dictionary

theorem Bson.ofRecord_ordered (record : Dictionary) :
    (ofRecord record.ordered).toOption = (ofRecord record).toOption :=
  sequence_sortedMembers fun m _ => canonical_ordered m.2

theorem Document.mount_ordered (d : Document) (opts : Dictionary) :
    d.mount opts.ordered = d.mount opts := by
  rw [mount, mount, Dictionary.ordered, Bson.verbatimMembers_eq_mapValues,
    Bson.verbatimMembers_eq_mapValues,
    Json.sorted_mapValues_sortedMembers fun m _ => Bson.verbatim_ordered m.2]

end DocQuery
