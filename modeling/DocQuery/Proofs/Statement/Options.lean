import DocQuery.Proofs.Predicate.Options
import DocQuery.Proofs.Statement.Traversal

/-! What the options of a statement hold, wherever they stand, does not count when it is read. -/
namespace DocQuery

namespace Json

/-- A change to what stands under one key. -/
def changeAt (name : String) (change : Json → Json) (key : String) (v : Json) : Json :=
  if key = name then change v else v

/-- Criteria with all of their options cleared. -/
def clearCriteria : Json → Json
  | .object members => .object (clearMembers (changeAt "where" clearNode) members)
  | other => other

/-- A statement with all of its options cleared. -/
def clearStatement : Json → Json
  | .object members => .object (clearMembers (changeAt "criteria" clearCriteria) members)
  | other => other

section ChangeAt

variable {name : String} {change : Json → Json} {members : Entries Json}

theorem get?_changed (h : name ≠ optsKey) :
    (clearMembers (changeAt name change) members).get? name = (members.get? name).map change := by
  have hchange : changeAt name change name = change := funext fun v => if_pos rfl
  rw [get?_clearMembers_of_ne _ h, hchange]

theorem get?_unchanged {key : String} (hopts : key ≠ optsKey) (hname : key ≠ name) :
    (clearMembers (changeAt name change) members).get? key = members.get? key := by
  have hchange : changeAt name change key = id := funext fun v => if_neg hname
  rw [get?_clearMembers_of_ne _ hopts, hchange, Option.map_id, id_eq]

end ChangeAt

theorem clearNode_eq_empty_iff {v : Json} : v.clearNode = .object [] ↔ v = .object [] := by
  cases v with
  | object members => simp [clearNode_object, clearMembers]
  | _ => simp [clearNode]

end Json

theorem firstUnknown?_clearMembers (allowed : List String) (change : String → Json → Json)
    (members : Entries Json) :
    firstUnknown? allowed (Json.clearMembers change members) = firstUnknown? allowed members := by
  rw [firstUnknown?, firstUnknown?, Json.keys_clearMembers]

namespace Criteria

/-- The same criteria with all of their options cleared. -/
def cleared (c : Criteria) : Criteria := c.mapParts Predicate.cleared Dictionary.cleared

theorem readFilter_cleared (members : Entries Json) :
    (readFilter (Json.clearMembers (Json.changeAt "where" Json.clearNode) members)).toOption =
      (readFilter members).toOption.map (Option.map Predicate.cleared) :=
  readFilter_map (Json.get?_changed (by decide)) (fun _ => Json.clearNode_eq_empty_iff)
    fun node _ => Predicate.ofJson_clearNode node

theorem ofJson_clearCriteria (v : Json) :
    (ofJson v.clearCriteria).toOption = (ofJson v).toOption.map cleared := by
  cases v with
  | object members =>
    rw [Json.clearCriteria, toOption_ofJson, toOption_ofJson, firstUnknown?_clearMembers,
      readFilter_cleared, readOpts_clearMembers, readSort, readCount, readCount, readSelect,
      Json.get?_unchanged (by decide) (by decide), Json.get?_unchanged (by decide) (by decide),
      Json.get?_unchanged (by decide) (by decide), Json.get?_unchanged (by decide) (by decide)]
    split
    · rfl
    · simp only [Option.bind_map, Option.map_bind, Function.comp_def]
      rfl
  | _ => rfl

end Criteria

namespace Statement

/-- The same statement with all of its options cleared. -/
def cleared (s : Statement) : Statement :=
  { s with criteria := s.criteria.map Criteria.cleared, opts := s.opts.map Dictionary.cleared }

theorem withProjection_cleared (criteria : Option Criteria) (projection : Option (List String)) :
    (withProjection (criteria.map Criteria.cleared) projection).toOption =
      (withProjection criteria projection).toOption.map (Option.map Criteria.cleared) :=
  withProjection_mapParts criteria projection

theorem readKind_cleared (members : Entries Json) (criteria : Option Criteria) :
    (readKind (Json.clearMembers (Json.changeAt "criteria" Json.clearCriteria) members)
        (criteria.map Criteria.cleared)).toOption =
      (readKind members criteria).toOption.map fun k => (k.1, k.2.map Criteria.cleared) := by
  unfold readKind
  rw [Json.get?_unchanged (by decide) (by decide), Json.get?_unchanged (by decide) (by decide),
    Json.get?_unchanged (by decide) (by decide), Json.get?_unchanged (by decide) (by decide)]
  split
  · rw [toOption_bind, toOption_bind]
    simp only [toOption_bind, withProjection_cleared, Option.map_bind, Option.bind_map,
      Function.comp_def]
    rfl
  · next insert _ _ =>
    rw [toOption_bind, toOption_bind]
    cases (readRecords insert).toOption <;> rfl
  · next update _ _ _ =>
    rw [toOption_bind, toOption_bind]
    cases (readDictionary "update" update).toOption <;> rfl
  · next delete _ _ _ _ =>
    rw [toOption_bind, toOption_bind]
    cases (readDelete delete).toOption <;> rfl
  · rfl

theorem filter_isEmpty_cleared (criteria : Option Criteria) :
    ((criteria.map Criteria.cleared).filter fun c => !c.isEmpty) =
      (criteria.filter fun c => !c.isEmpty).map Criteria.cleared :=
  Criteria.filter_isEmpty_mapParts criteria

theorem readCriteria_cleared (members : Entries Json) :
    (readCriteria (Json.clearMembers (Json.changeAt "criteria" Json.clearCriteria)
        members)).toOption =
      (readCriteria members).toOption.map (Option.map Criteria.cleared) :=
  readCriteria_map (Json.get?_changed (by decide)) fun v _ => Criteria.ofJson_clearCriteria v

/-- Options may be cleared before a statement is read or after it. -/
theorem ofJson_clearStatement (v : Json) :
    (ofJson v.clearStatement).toOption = (ofJson v).toOption.map cleared := by
  cases v with
  | object members =>
    have hkeys : Entries.hasKey
        (Json.clearMembers (Json.changeAt "criteria" Json.clearCriteria) members) =
          Entries.hasKey members := by
      funext key
      rw [Entries.hasKey, Entries.hasKey, Json.keys_clearMembers]
    rw [Json.clearStatement, toOption_ofJson, toOption_ofJson, firstUnknown?_clearMembers, hkeys,
      readCollection, readCollection, Json.get?_unchanged (by decide) (by decide),
      readCriteria_cleared, readOpts_clearMembers]
    split
    · rfl
    · split
      · rfl
      · simp only [Option.bind_map, Option.map_bind, Function.comp_def, readKind_cleared]
        simp only [filter_isEmpty_cleared]
        rfl
  | _ => rfl

end Statement

end DocQuery
