import DocQuery.Proofs.Sequencing
import DocQuery.Proofs.Statement.Rules
import DocQuery.Statement.Reading

/-! The reader of statements clause by clause, and changes to the predicate and the options of a
statement that leave its other clauses alone. -/
namespace DocQuery

variable {f : Predicate → Predicate} {g : Dictionary → Dictionary}

namespace Criteria

theorem readFilter_of_node {members : Entries Json} {node : Json}
    (h : members.get? "where" = some node) (hnode : node ≠ .object []) :
    readFilter members = some <$> Predicate.ofJson node := by
  rw [readFilter, h]
  match node with
  | .object [] => exact absurd rfl hnode
  | .object (_ :: _) => rfl
  | .null | .bool _ | .number _ | .string _ | .array _ => rfl

section Lookups

variable {members members' : Entries Json}

theorem readFilter_congr (h : members'.get? "where" = members.get? "where") :
    readFilter members' = readFilter members := by
  rw [readFilter, readFilter, h]

theorem readSort_congr (h : members'.get? "sort" = members.get? "sort") :
    readSort members' = readSort members := by
  rw [readSort, readSort, h]

theorem readCount_congr {clause : String} (h : members'.get? clause = members.get? clause) :
    readCount members' clause = readCount members clause := by
  rw [readCount, readCount, h]

theorem readSelect_congr (h : members'.get? "select" = members.get? "select") :
    readSelect members' = readSelect members := by
  rw [readSelect, readSelect, h]

end Lookups

theorem toOption_ofJson (members : Entries Json) :
    (ofJson (.object members)).toOption =
      if (firstUnknown? clauseKeys members).isSome then none else
        (readFilter members).toOption.bind fun filter =>
        (readSort members).toOption.bind fun sort =>
        (readCount members "limit").toOption.bind fun limit =>
        (readCount members "skip").toOption.bind fun skip =>
        (readSelect members).toOption.bind fun select =>
        (readOpts members).toOption.bind fun opts =>
          some { filter, sort, limit, skip, select, opts } := by
  rw [ofJson]
  cases firstUnknown? clauseKeys members with
  | some key => rfl
  | none =>
    simp only [toOption_bind]
    rfl

/-- The predicate is read with a change if the node that it is read from is. -/
theorem readFilter_map {members members' : Entries Json} {change : Json → Json}
    (hget : members'.get? "where" = (members.get? "where").map change)
    (hempty : ∀ v, change v = .object [] ↔ v = .object [])
    (hread : ∀ node, members.get? "where" = some node →
      (Predicate.ofJson (change node)).toOption = (Predicate.ofJson node).toOption.map f) :
    (readFilter members').toOption = (readFilter members).toOption.map (Option.map f) := by
  cases hwhere : members.get? "where" with
  | none =>
    rw [hwhere] at hget
    rw [readFilter, readFilter, hget, hwhere]
    rfl
  | some node =>
    rw [hwhere, Option.map_some] at hget
    by_cases hnode : node = .object []
    · rw [(hempty node).2 hnode] at hget
      subst hnode
      rw [readFilter, readFilter, hget, hwhere]
      rfl
    · have hchanged : change node ≠ .object [] := mt (hempty node).1 hnode
      rw [readFilter_of_node hget hchanged, readFilter_of_node hwhere hnode, toOption_map,
        toOption_map, hread node hwhere, Option.map_map, Option.map_map]
      rfl

/-- The same criteria with a change to their predicate and another one to their options. -/
def mapParts (f : Predicate → Predicate) (g : Dictionary → Dictionary) (c : Criteria) : Criteria :=
  { c with filter := c.filter.map f, opts := c.opts.map g }

/-- The rules hold of the changed criteria if they hold of the changed predicate. -/
theorem validate_mapParts_iff {c : Criteria}
    (hf : ∀ p, (f p).validate = .ok () ↔ p.validate = .ok ()) :
    (c.mapParts f g).validate = .ok () ↔ c.validate = .ok () := by
  rw [validate_eq_ok_iff, validate_eq_ok_iff, mapParts]
  simp [hf]

/-- Criteria without any clause stay without any, and others keep one. -/
theorem filter_isEmpty_mapParts (criteria : Option Criteria) :
    ((criteria.map (mapParts f g)).filter fun c => !c.isEmpty) =
      (criteria.filter fun c => !c.isEmpty).map (mapParts f g) := by
  cases criteria with
  | none => rfl
  | some c =>
    have hempty : (c.mapParts f g).isEmpty = c.isEmpty := by
      simp [isEmpty, mapParts]
    cases h : c.isEmpty <;> simp [Option.filter, hempty, h]

end Criteria

namespace Statement

/-- The criteria are read with a change if the value that they are read from is. -/
theorem readCriteria_map {members members' : Entries Json} {change : Json → Json}
    {h : Criteria → Criteria}
    (hget : members'.get? "criteria" = (members.get? "criteria").map change)
    (hread : ∀ v, members.get? "criteria" = some v →
      (Criteria.ofJson (change v)).toOption = (Criteria.ofJson v).toOption.map h) :
    (readCriteria members').toOption = (readCriteria members).toOption.map (Option.map h) := by
  rw [readCriteria, readCriteria, hget]
  cases hcriteria : members.get? "criteria" with
  | none => rfl
  | some v =>
    rw [Option.map_some]
    dsimp only
    rw [toOption_map, toOption_map, hread v hcriteria, Option.map_map, Option.map_map]
    rfl

theorem withProjection_mapParts (criteria : Option Criteria) (projection : Option (List String)) :
    (withProjection (criteria.map (Criteria.mapParts f g)) projection).toOption =
      (withProjection criteria projection).toOption.map (Option.map (Criteria.mapParts f g)) := by
  cases criteria with
  | none => rfl
  | some c =>
    have hselect : (c.mapParts f g).select = c.select := rfl
    rw [withProjection, withProjection]
    simp only [Option.map_some, Option.getD_some]
    rw [hselect]
    split <;> rfl

theorem toOption_ofJson (members : Entries Json) :
    (ofJson (.object members)).toOption =
      if (firstUnknown? keys members).isSome then none else
      if 1 < (kindKeys.filter (Entries.hasKey members)).length then none else
        (readCollection members).toOption.bind fun collection =>
        (readCriteria members).toOption.bind fun criteria =>
        (readKind members criteria).toOption.bind fun kind =>
        (readOpts members).toOption.bind fun opts =>
          some ⟨collection, kind.1, kind.2.filter fun c => !c.isEmpty, opts⟩ := by
  rw [ofJson]
  cases firstUnknown? keys members with
  | some key => rfl
  | none =>
    simp only [Option.isSome_none, Bool.false_eq_true, if_false]
    split
    · rfl
    · simp only [toOption_bind]
      rfl

end Statement

end DocQuery
