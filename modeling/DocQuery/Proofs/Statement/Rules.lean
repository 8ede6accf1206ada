import DocQuery.Proofs.Sequencing
import DocQuery.Statement.Validity

/-! The rules that a statement obeys, read off its checks one function at a time. -/
namespace DocQuery

def Records.toList : Records → List Dictionary
  | .one record => [record]
  | .many records => records

theorem Criteria.isEmpty_iff {c : Criteria} : c.isEmpty = true ↔ c = empty := by
  obtain ⟨filter, sort, limit, skip, select, opts⟩ := c
  simp [isEmpty, empty, and_assoc]

theorem Statement.validate_eq_ok_iff {s : Statement} :
    s.validate = .ok () ↔ s.collection ≠ "" ∧ s.validateKind = .ok () ∧
      ∀ c, s.criteria = some c → c.validate = .ok () := by
  rw [validate, guard_eq_ok_iff, andThen_eq_ok_iff, optionForM_eq_ok_iff]

theorem Criteria.validate_eq_ok_iff {c : Criteria} :
    c.validate = .ok () ↔
      (∀ entries, c.sort = some entries → SortEntry.validateAll [] entries = .ok ()) ∧
      (∀ names, c.select = some names → validateSelect names = .ok ()) ∧
        ∀ p, c.filter = some p → p.validate = .ok () := by
  rw [validate, andThen_eq_ok_iff, andThen_eq_ok_iff, optionForM_eq_ok_iff, optionForM_eq_ok_iff,
    optionForM_eq_ok_iff]

/-- What a sort clause is checked for: attributes that are given, and that differ from each other and
from those that were seen. -/
theorem SortEntry.validateAll_eq_ok_iff {seen : List String} {entries : List SortEntry} :
    validateAll seen entries = .ok () ↔
      (entries.map attr).Nodup ∧ ∀ e ∈ entries, e.attr ≠ "" ∧ e.attr ∉ seen := by
  induction entries generalizing seen with
  | nil => simp [validateAll]
  | cons entry entries ih =>
    rw [validateAll]
    split
    · next hempty => simp [hempty]
    · next hgiven =>
      split
      · next hseen => simp [List.contains_iff_mem.1 hseen]
      · next hfresh =>
        rw [List.contains_iff_mem] at hfresh
        rw [ih, List.map_cons, List.nodup_cons, List.forall_mem_cons]
        simp only [List.mem_map, List.mem_cons, not_or, not_exists, not_and]
        constructor
        · rintro ⟨hnodup, hrest⟩
          exact ⟨⟨fun e he => (hrest e he).2.1, hnodup⟩, ⟨hgiven, hfresh⟩,
            fun e he => ⟨(hrest e he).1, (hrest e he).2.2⟩⟩
        · rintro ⟨⟨hne, hnodup⟩, -, hrest⟩
          exact ⟨hnodup, fun e he => ⟨(hrest e he).1, hne e he, (hrest e he).2⟩⟩

theorem Dictionary.validateRecord_eq_ok_iff {record : Dictionary} :
    record.validateRecord = .ok () ↔ ∀ m ∈ record.entries, DateLike.check m.2 = .ok () := by
  rw [validateRecord, forM_eq_ok_iff]
  simp only [Entries.values, List.forall_mem_map, Json.checkDates, mapError_eq_ok_iff]

namespace Statement

theorem validateKind_insert_iff {s : Statement} {records : Records}
    (hk : s.kind = .insert records) :
    s.validateKind = .ok () ↔ s.criteria = none ∧ records.toList ≠ [] ∧
      ∀ record ∈ records.toList, record.validateRecord = .ok () := by
  rw [validateKind, hk]
  simp only
  rw [guard_eq_ok_iff, Option.not_isSome_iff_eq_none]
  match records with
  | .one record => simp [Records.toList]
  | .many [] => simp [Records.toList]
  | .many (record :: records) =>
    rw [← forM_eq_ok_iff]
    simp [Records.toList]

theorem validateKind_update_iff {s : Statement} {values : Dictionary}
    (hk : s.kind = .update values) :
    s.validateKind = .ok () ↔ values.entries ≠ [] ∧ values.validateRecord = .ok () := by
  rw [validateKind, hk]
  simp only
  rw [guard_eq_ok_iff, Dictionary.isEmpty, List.isEmpty_iff]

end Statement

end DocQuery
