import DocQuery.Proofs.Predicate.Order
import DocQuery.Proofs.Statement.Traversal

/-! Statements up to the order of keys: what is read from an object does not depend on the order in
which its members stand. -/
namespace DocQuery

theorem isSome_firstUnknown?_sortedMembers (allowed : List String) (members : Entries Json) :
    (firstUnknown? allowed (Json.sortedMembers members)).isSome =
      (firstUnknown? allowed members).isSome := by
  rw [firstUnknown?, firstUnknown?, Bool.eq_iff_iff, List.find?_isSome, List.find?_isSome]
  simp only [(Json.keys_sortedMembers members).mem_iff]

namespace Criteria

/-- The same criteria with the keys within operands and options in code-point order. -/
def ordered (c : Criteria) : Criteria :=
  { c with filter := c.filter.map Predicate.ordered, opts := c.opts.map Dictionary.ordered }

theorem readFilter_ordered {members : Entries Json} (h : (Json.object members).KeysDistinct) :
    (readFilter (Json.sortedMembers members)).toOption =
      (readFilter members).toOption.map (Option.map Predicate.ordered) := by
  have hget := Json.get?_sortedMembers (Json.keysDistinct_object_iff.1 h).1 "where"
  refine readFilter_map hget (fun v => Json.ordered_eq_empty_iff) ?_
  intro node hwhere
  exact Predicate.ofJson_ordered (Json.keysDistinct_of_get? h hwhere)

theorem nat?_ordered (v : Json) : v.ordered.nat? = v.nat? := by
  cases v <;> rfl

theorem readCount_ordered {members : Entries Json} (h : (Entries.keys members).Nodup)
    (clause : String) :
    (readCount (Json.sortedMembers members) clause).toOption =
      (readCount members clause).toOption := by
  rw [readCount, readCount, Json.get?_sortedMembers h]
  cases members.get? clause with
  | none => rfl
  | some v =>
    rw [Option.map_some]
    dsimp only
    rw [nat?_ordered]
    cases v.nat? <;> rfl

theorem readNames_ordered (clause : String) (items : List Json) :
    (readNames clause (items.map Json.ordered)).toOption = (readNames clause items).toOption := by
  induction items with
  | nil => rfl
  | cons item items ih =>
    cases item with
    | string name =>
      rw [List.map_cons, Json.ordered, readNames, readNames, toOption_bind, toOption_bind, ih]
    | _ => rfl

theorem readProjection_ordered (clause : String) (v : Json) :
    (readProjection clause v.ordered).toOption = (readProjection clause v).toOption := by
  cases v with
  | array items =>
    rw [Json.ordered_array, readProjection, readProjection, toOption_bind, toOption_bind,
      readNames_ordered]
  | _ => rfl

theorem readSelect_ordered {members : Entries Json} (h : (Entries.keys members).Nodup) :
    (readSelect (Json.sortedMembers members)).toOption = (readSelect members).toOption := by
  rw [readSelect, readSelect, Json.get?_sortedMembers h]
  cases members.get? "select" with
  | none => rfl
  | some v => exact readProjection_ordered "criteria.select" v

theorem direction?_ordered (v : Json) : direction? v.ordered = direction? v := by
  cases v <;> rfl

theorem readSortEntry_ordered (v : Json) :
    (readSortEntry v.ordered).toOption = (readSortEntry v).toOption := by
  cases v with
  | object members =>
    rw [Json.ordered_object]
    match members with
    | [] => rw [Json.sortedMembers_nil]
    | [(attr, value)] =>
      rw [Json.sortedMembers_singleton, readSortEntry, readSortEntry, direction?_ordered]
      cases direction? value <;> rfl
    | m :: n :: rest =>
      have hlength := Json.length_sortedMembers (m :: n :: rest)
      match Json.sortedMembers (m :: n :: rest), hlength with
      | _ :: _ :: _, _ => rfl
  | _ => rfl

theorem readSort_ordered {members : Entries Json} (h : (Entries.keys members).Nodup) :
    (readSort (Json.sortedMembers members)).toOption = (readSort members).toOption := by
  rw [readSort, readSort, Json.get?_sortedMembers h]
  cases members.get? "sort" with
  | none => rfl
  | some v =>
    cases v with
    | array items =>
      rw [Option.map_some, Json.ordered_array]
      dsimp only
      rw [toOption_bind, toOption_bind, toOption_mapM_eq fun item _ => readSortEntry_ordered item]
    | _ => rfl

theorem ofJson_ordered {v : Json} (h : v.KeysDistinct) :
    (ofJson v.ordered).toOption = (ofJson v).toOption.map ordered := by
  cases v with
  | object members =>
    have hnodup := (Json.keysDistinct_object_iff.1 h).1
    rw [Json.ordered_object, toOption_ofJson, toOption_ofJson,
      isSome_firstUnknown?_sortedMembers, readFilter_ordered h, readSort_ordered hnodup,
      readCount_ordered hnodup, readCount_ordered hnodup, readSelect_ordered hnodup,
      readOpts_sortedMembers h]
    split
    · rfl
    · simp only [Option.bind_map, Option.map_bind, Function.comp_def]
      rfl
  | _ => rfl

end Criteria

def Records.ordered : Records → Records
  | .one record => .one record.ordered
  | .many records => .many (records.map Dictionary.ordered)

def StatementKind.ordered : StatementKind → StatementKind
  | .find => .find
  | .insert records => .insert records.ordered
  | .update values => .update values.ordered
  | .destroy => .destroy

namespace Statement

/-- The same statement with the keys of everything that it carries in code-point order. -/
def ordered (s : Statement) : Statement :=
  { s with
    kind := s.kind.ordered
    criteria := s.criteria.map Criteria.ordered
    opts := s.opts.map Dictionary.ordered }

theorem hasKey_sortedMembers (members : Entries Json) :
    Entries.hasKey (Json.sortedMembers members) = Entries.hasKey members := by
  funext key
  rw [Entries.hasKey, Entries.hasKey, Bool.eq_iff_iff, List.contains_iff_mem, List.contains_iff_mem,
    (Json.keys_sortedMembers members).mem_iff]

theorem readRecords_ordered {v : Json} (h : v.KeysDistinct) :
    (readRecords v.ordered).toOption = (readRecords v).toOption.map Records.ordered := by
  cases v with
  | array items =>
    have hitems := Json.keysDistinct_array_iff.1 h
    rw [Json.ordered_array, readRecords, readRecords, toOption_map, toOption_map,
      toOption_mapM_map fun item hm => readDictionary_ordered "insert" (hitems item hm),
      Option.map_map, Option.map_map]
    rfl
  | object members =>
    rw [Json.ordered_object, readRecords, readRecords,
      Dictionary.ofList_sortedMembers (Json.keysDistinct_object_iff.1 h).1]
    rfl
  | _ => rfl

theorem readDelete_ordered (v : Json) :
    (readDelete v.ordered).toOption = (readDelete v).toOption.map StatementKind.ordered := by
  cases v with
  | bool b => cases b <;> rfl
  | _ => rfl

theorem withProjection_ordered (criteria : Option Criteria) (projection : Option (List String)) :
    (withProjection (criteria.map Criteria.ordered) projection).toOption =
      (withProjection criteria projection).toOption.map (Option.map Criteria.ordered) :=
  withProjection_mapParts criteria projection

theorem readKind_ordered {members : Entries Json} (h : (Json.object members).KeysDistinct)
    (criteria : Option Criteria) :
    (readKind (Json.sortedMembers members) (criteria.map Criteria.ordered)).toOption =
      (readKind members criteria).toOption.map fun k =>
        (k.1.ordered, k.2.map Criteria.ordered) := by
  have hnodup := (Json.keysDistinct_object_iff.1 h).1
  unfold readKind
  rw [Json.get?_sortedMembers hnodup, Json.get?_sortedMembers hnodup,
    Json.get?_sortedMembers hnodup, Json.get?_sortedMembers hnodup]
  cases hselect : members.get? "select" with
  | some select =>
    simp only [Option.map_some]
    rw [toOption_bind, toOption_bind, Criteria.readProjection_ordered]
    simp only [toOption_bind, withProjection_ordered, Option.map_bind, Option.bind_map,
      Function.comp_def]
    rfl
  | none =>
    cases hinsert : members.get? "insert" with
    | some insert =>
      have hinsert' := readRecords_ordered (Json.keysDistinct_of_get? h hinsert)
      simp only [Option.map_some, Option.map_none]
      rw [toOption_bind, toOption_bind, hinsert']
      cases (readRecords insert).toOption <;> rfl
    | none =>
      cases hupdate : members.get? "update" with
      | some update =>
        have hupdate' := readDictionary_ordered "update" (Json.keysDistinct_of_get? h hupdate)
        simp only [Option.map_some, Option.map_none]
        rw [toOption_bind, toOption_bind, hupdate']
        cases (readDictionary "update" update).toOption <;> rfl
      | none =>
        cases hdelete : members.get? "delete" with
        | some delete =>
          simp only [Option.map_some, Option.map_none]
          rw [toOption_bind, toOption_bind, readDelete_ordered]
          cases (readDelete delete).toOption <;> rfl
        | none => rfl

theorem readCollection_ordered {members : Entries Json} (h : (Entries.keys members).Nodup) :
    (readCollection (Json.sortedMembers members)).toOption = (readCollection members).toOption := by
  rw [readCollection, readCollection, Json.get?_sortedMembers h]
  cases members.get? "using" with
  | none => rfl
  | some v => cases v <;> rfl

theorem readCriteria_ordered {members : Entries Json} (h : (Json.object members).KeysDistinct) :
    (readCriteria (Json.sortedMembers members)).toOption =
      (readCriteria members).toOption.map (Option.map Criteria.ordered) := by
  have hget := Json.get?_sortedMembers (Json.keysDistinct_object_iff.1 h).1 "criteria"
  refine readCriteria_map hget ?_
  intro v hcriteria
  exact Criteria.ofJson_ordered (Json.keysDistinct_of_get? h hcriteria)

theorem filter_isEmpty_ordered (criteria : Option Criteria) :
    ((criteria.map Criteria.ordered).filter fun c => !c.isEmpty) =
      (criteria.filter fun c => !c.isEmpty).map Criteria.ordered :=
  Criteria.filter_isEmpty_mapParts criteria

theorem ofJson_ordered {v : Json} (h : v.KeysDistinct) :
    (ofJson v.ordered).toOption = (ofJson v).toOption.map ordered := by
  cases v with
  | object members =>
    have hnodup := (Json.keysDistinct_object_iff.1 h).1
    rw [Json.ordered_object, toOption_ofJson, toOption_ofJson,
      isSome_firstUnknown?_sortedMembers, hasKey_sortedMembers, readCollection_ordered hnodup,
      readCriteria_ordered h, readOpts_sortedMembers h]
    split
    · rfl
    · split
      · rfl
      · simp only [Option.bind_map, Option.map_bind, Function.comp_def, readKind_ordered h]
        simp only [filter_isEmpty_ordered]
        rfl
  | _ => rfl

end Statement

end DocQuery
