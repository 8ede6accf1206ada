import DocQuery.Proofs.Compilation.Exits
import DocQuery.Proofs.Statement.Order

/-! Compilation does not depend on the order of keys: values that are equal up to that order compile
to the same query, byte for byte, or fail with the same kind of error. Sorting the keys at every depth
is one such order, and both values are compared with it. -/
namespace DocQuery

theorem Dictionary.validateRecord_ordered_iff {record : Dictionary} :
    record.ordered.validateRecord = .ok () ↔ record.validateRecord = .ok () := by
  rw [validateRecord_eq_ok_iff, validateRecord_eq_ok_iff, ordered]
  simp only [Json.mem_sortedMembers_iff]
  constructor
  · intro h m hm
    exact (DateLike.check_ordered_iff m.2).1 (h _ ⟨m, hm, rfl⟩)
  · rintro h _ ⟨m, hm, rfl⟩
    exact (DateLike.check_ordered_iff m.2).2 (h m hm)

theorem Records.toList_ordered (records : Records) :
    records.ordered.toList = records.toList.map Dictionary.ordered := by
  cases records <;> rfl

theorem Criteria.validate_ordered_iff {c : Criteria} :
    c.ordered.validate = .ok () ↔ c.validate = .ok () :=
  validate_mapParts_iff Predicate.validate_ordered_iff

namespace Statement

theorem validateKind_ordered_iff {s : Statement} :
    s.ordered.validateKind = .ok () ↔ s.validateKind = .ok () := by
  have hkind : s.ordered.kind = s.kind.ordered := rfl
  cases hk : s.kind with
  | find | destroy =>
    rw [hk] at hkind
    rw [validateKind, validateKind, hk, hkind]
    rfl
  | insert records =>
    rw [hk] at hkind
    rw [validateKind_insert_iff hk, validateKind_insert_iff hkind, Records.toList_ordered]
    simp [ordered, Dictionary.validateRecord_ordered_iff]
  | update values =>
    rw [hk] at hkind
    rw [validateKind_update_iff hk, validateKind_update_iff hkind,
      Dictionary.validateRecord_ordered_iff, Ne, ← List.length_eq_zero_iff, Dictionary.ordered,
      Json.length_sortedMembers, List.length_eq_zero_iff]

/-- The rules do not look at the order of keys. -/
theorem validate_ordered_iff {s : Statement} :
    s.ordered.validate = .ok () ↔ s.validate = .ok () := by
  rw [validate_eq_ok_iff, validate_eq_ok_iff, validateKind_ordered_iff]
  simp [ordered, Criteria.validate_ordered_iff]

theorem clauses_ordered (s : Statement) : s.ordered.clauses = s.clauses.ordered := by
  unfold clauses ordered
  cases s.criteria <;> rfl

end Statement

namespace Criteria

theorem filterEntry_ordered (c : Criteria) :
    c.ordered.filterEntry.toOption = c.filterEntry.toOption := by
  unfold filterEntry ordered
  cases c.filter with
  | none => rfl
  | some p =>
    simp only [Option.map_some, toOption_bind, Filter.ofPredicate_ordered]

theorem findArguments_ordered (c : Criteria) :
    c.ordered.findArguments.toOption = c.findArguments.toOption := by
  unfold findArguments
  rw [toOption_bind, toOption_bind, filterEntry_ordered]
  rfl

theorem filterArguments_ordered (kind : StatementKind) (c : Criteria) :
    (c.ordered.filterArguments kind.ordered).toOption = (c.filterArguments kind).toOption := by
  unfold filterArguments
  rw [show c.ordered.findClauses = c.findClauses from rfl]
  cases c.findClauses with
  | nil => exact filterEntry_ordered c
  | cons clause clauses => rfl

end Criteria

namespace NativeQuery

theorem arguments_ordered (s : Statement) :
    (arguments s.ordered).toOption = (arguments s).toOption := by
  have hcriteria : s.ordered.criteria.getD Criteria.empty =
      (s.criteria.getD Criteria.empty).ordered := s.clauses_ordered
  have hkind : s.ordered.kind = s.kind.ordered := rfl
  simp only [arguments, hcriteria, hkind]
  cases s.kind with
  | find =>
    simp only [StatementKind.ordered, toOption_bind, Criteria.findArguments_ordered]
  | insert records =>
    cases records with
    | one record =>
      simp only [StatementKind.ordered, Records.ordered, toOption_bind, Bson.ofRecord_ordered]
    | many records =>
      have hrecords : ((records.map Dictionary.ordered).mapM Bson.ofRecord).toOption =
          (records.mapM Bson.ofRecord).toOption :=
        toOption_mapM_eq fun record _ => Bson.ofRecord_ordered record
      simp only [StatementKind.ordered, Records.ordered, toOption_bind, hrecords]
  | update values =>
    have hfilter :=
      Criteria.filterArguments_ordered (.update values) (s.criteria.getD Criteria.empty)
    simp only [StatementKind.ordered, toOption_bind, Bson.ofRecord_ordered] at hfilter ⊢
    rw [hfilter]
  | destroy =>
    have hfilter := Criteria.filterArguments_ordered .destroy (s.criteria.getD Criteria.empty)
    simp only [StatementKind.ordered, toOption_bind] at hfilter ⊢
    rw [hfilter]

/-- The translation of a statement does not look at the order of keys. -/
theorem translate_ordered (s : Statement) :
    (translate s.ordered).toOption = (translate s).toOption := by
  have hopts : s.ordered.criteria.bind Criteria.opts =
      (s.criteria.bind Criteria.opts).map Dictionary.ordered := by
    unfold Statement.ordered
    cases s.criteria <;> rfl
  rw [translate, translate, toOption_bind, toOption_bind, arguments_ordered, hopts,
    show s.ordered.opts = s.opts.map Dictionary.ordered from rfl]
  simp only [Filter.mountAll_ordered]
  rfl

/-- What fails for both of two translations that obey the rules fails alike. -/
theorem mapError_translate_eq {s t : Statement} (hs : s.validate = .ok ())
    (ht : t.validate = .ok ()) (h : (translate s).toOption = (translate t).toOption) :
    (translate s).mapError Error.kind = (translate t).mapError Error.kind := by
  cases hs' : translate s with
  | ok q =>
    rw [hs', toOption_ok] at h
    rw [toOption_eq_some_iff.1 h.symm]
  | error e =>
    rw [hs', toOption_error] at h
    cases ht' : translate t with
    | ok q =>
      rw [ht'] at h
      cases h
    | error e' =>
      rw [mapError_error, mapError_error, (kind_of_translate hs hs').2,
        (kind_of_translate ht ht').2]

theorem mapError_ofJson_ordered {v : Json} (h : v.KeysDistinct) :
    (ofJson v.ordered).mapError Error.kind = (ofJson v).mapError Error.kind := by
  refine view_ofJson_eq id (Statement.ofJson_ordered h) (fun s => Statement.validate_ordered_iff) ?_
  intro s hs
  exact mapError_translate_eq (Statement.validate_ordered_iff.2 hs) hs (translate_ordered s)

/-- Statements that are equal up to the order of keys, at any depth, have the same outcome: the same
query with the same order of its own keys, or the same kind of error. -/
theorem compile_reordered {v w : Json} (context : Option Json) (hv : v.KeysDistinct)
    (h : v.Reordered w) : (compile v context).outcome = (compile w context).outcome := by
  obtain ⟨heq, hw⟩ := Json.ordered_eq_of_reordered h hv
  unfold compile
  cases Dictionary.ofArgument context with
  | error e => rfl
  | ok context =>
    simp only [outcome_exit]
    rw [← mapError_ofJson_ordered hv, ← mapError_ofJson_ordered hw, heq]

/-- A range next to another condition, in two orders of keys. -/
def rangeFind : Json :=
  .object [("using", .string "logs"), ("criteria", .object [("where", .object [
    ("time", .object [("<", .string "q"), (">=", .string "p")]), ("host", .null)])])]

def rangeFindReordered : Json :=
  .object [("criteria", .object [("where", .object [
    ("host", .null), ("time", .object [(">=", .string "p"), ("<", .string "q")])])]),
    ("using", .string "logs")]

theorem rangeFind_reordered :
    (rangeFind.KeysDistinct ∧ rangeFind.Reordered rangeFindReordered) ∧
      (compile rangeFind none).outcome = (compile rangeFindReordered none).outcome := by
  have hdistinct : rangeFind.KeysDistinct := by
    simp [rangeFind, Json.keysDistinct_object_iff, Entries.keys]
  have hreordered : rangeFind.Reordered rangeFindReordered :=
    (Json.Reordered.keys (.swap ..)).trans
      (@Json.Reordered.member [] [("using", .string "logs")] "criteria" _ _
        (@Json.Reordered.member [] [] "where" _ _
          ((Json.Reordered.keys (.swap ..)).trans
            (@Json.Reordered.member [("host", .null)] [] "time" _ _ (.keys (.swap ..))))))
  exact ⟨⟨hdistinct, hreordered⟩, compile_reordered none hdistinct hreordered⟩

end NativeQuery

end DocQuery
