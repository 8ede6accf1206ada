import DocQuery.Compilation
import DocQuery.Proofs.Statement.Building

/-! Statements are summaries of the clauses that they were built with. How clauses of different sorts
are interleaved makes no difference, neither to the statement nor to what becomes of it. -/
namespace DocQuery

namespace Statement

/-- The statement is of the given kind and says what the clauses say: of each sort the last one, but all
of the sort entries, in order. -/
structure Summarizes (s : Statement) (collection : String) (kind : StatementKind)
    (clauses : List Clause) : Prop where
  collection : s.collection = collection
  kind : s.kind = kind
  criteria : s.criteria = none ↔ ∀ clause ∈ clauses, clause.isCriteria = false
  filter : s.criteria.bind Criteria.filter = lastSet Clause.filter? clauses
  sort : s.criteria.bind Criteria.sort =
    if clauses.filterMap Clause.sort? = [] then none else some (clauses.filterMap Clause.sort?)
  limit : s.criteria.bind Criteria.limit = lastSet Clause.limit? clauses
  skip : s.criteria.bind Criteria.skip = lastSet Clause.skip? clauses
  select : s.criteria.bind Criteria.select = lastSet Clause.select? clauses
  criteriaOpts : s.criteria.bind Criteria.opts = lastSet Clause.criteriaOpts? clauses
  opts : s.opts = lastSet Clause.opts? clauses

/-- Both lists have the same clauses of each sort in the same order. -/
structure SameClauses (a b : List Clause) : Prop where
  filter : a.filterMap Clause.filter? = b.filterMap Clause.filter?
  sort : a.filterMap Clause.sort? = b.filterMap Clause.sort?
  limit : a.filterMap Clause.limit? = b.filterMap Clause.limit?
  skip : a.filterMap Clause.skip? = b.filterMap Clause.skip?
  select : a.filterMap Clause.select? = b.filterMap Clause.select?
  criteriaOpts : a.filterMap Clause.criteriaOpts? = b.filterMap Clause.criteriaOpts?
  opts : a.filterMap Clause.opts? = b.filterMap Clause.opts?

variable {collection : String} {kind : StatementKind} {clauses : List Clause}

/-- Whether the criteria are there or not, a clause of theirs is that of the clauses described. -/
theorem bind_criteria_ofClauses {α : Type} {part : Criteria → Option α}
    (hempty : part Criteria.empty = none) :
    (ofClauses collection kind clauses).criteria.bind part = part (Criteria.ofClauses clauses) := by
  have hcriteria : (ofClauses collection kind clauses).criteria.getD Criteria.empty =
      Criteria.ofClauses clauses := getD_criteria_ofClauses
  rw [← hcriteria]
  cases (ofClauses collection kind clauses).criteria with
  | none => rw [Option.bind_none, Option.getD_none, hempty]
  | some c => rfl

theorem summarizes_ofClauses : (ofClauses collection kind clauses).Summarizes collection kind clauses where
  collection := rfl
  kind := rfl
  criteria := by simp [ofClauses]
  filter := bind_criteria_ofClauses rfl
  sort := by
    rw [bind_criteria_ofClauses rfl, Criteria.ofClauses]
    cases clauses.filterMap Clause.sort? <;> rfl
  limit := bind_criteria_ofClauses rfl
  skip := bind_criteria_ofClauses rfl
  select := bind_criteria_ofClauses rfl
  criteriaOpts := bind_criteria_ofClauses rfl
  opts := rfl

theorem ofClauses_congr {a b : List Clause} (h : SameClauses a b) :
    ofClauses collection kind a = ofClauses collection kind b := by
  have hcriteria : Criteria.ofClauses a = Criteria.ofClauses b := by
    simp only [Criteria.ofClauses, lastSet, h.filter, h.sort, h.limit, h.skip, h.select,
      h.criteriaOpts]
  have hany : a.any Clause.isCriteria = b.any Clause.isCriteria := by
    rw [Bool.eq_iff_iff, ← not_iff_not, ← Criteria.isEmpty_ofClauses_iff,
      ← Criteria.isEmpty_ofClauses_iff, hcriteria]
  have hopts : lastSet Clause.opts? a = lastSet Clause.opts? b := by
    rw [lastSet, lastSet, h.opts]
  rw [ofClauses, ofClauses, hcriteria, hany, hopts]

/-- What is built from any start by any clauses summarizes them. Clauses that are the same sort by sort
build the same statement, so that it compiles to the same or fails in the same way. -/
theorem addAll_summarizes (collection : String) (kind : StatementKind) :
    (∀ clauses, ((start collection kind).addAll clauses).Summarizes collection kind clauses) ∧
      ∀ a b, SameClauses a b →
        (start collection kind).addAll a = (start collection kind).addAll b ∧
        ∀ context, exit (NativeQuery.ofStatement ((start collection kind).addAll a)) context =
          exit (NativeQuery.ofStatement ((start collection kind).addAll b)) context := by
  refine ⟨fun clauses => ?_, fun a b h => ?_⟩
  · rw [addAll_start]
    exact summarizes_ofClauses
  · have hbuilt : (start collection kind).addAll a = (start collection kind).addAll b := by
      rw [addAll_start, addAll_start, ofClauses_congr h]
    exact ⟨hbuilt, fun context => by rw [hbuilt]⟩

/-- Clauses that are set again and interleaved with others. -/
def interleaved : List Clause :=
  [.limit 5, .sort "age" .descending, .opts .empty, .limit 10, .filter (.equal "name" .null),
    .sort "name" .ascending, .select ["age"]]

/-- The same clauses, sort by sort. -/
def grouped : List Clause :=
  [.filter (.equal "name" .null), .select ["age"], .sort "age" .descending, .sort "name" .ascending,
    .limit 5, .limit 10, .opts .empty]

theorem interleaved_summarizes :
    SameClauses interleaved grouped ∧
      (start "people" .find).addAll interleaved = (start "people" .find).addAll grouped ∧
      exit (NativeQuery.ofStatement ((start "people" .find).addAll interleaved)) none =
        exit (NativeQuery.ofStatement ((start "people" .find).addAll grouped)) none ∧
      ((start "people" .find).addAll interleaved).criteria.bind Criteria.limit = some 10 := by
  have hsame : SameClauses interleaved grouped := ⟨rfl, rfl, rfl, rfl, rfl, rfl, rfl⟩
  obtain ⟨hsummary, hcongr⟩ := addAll_summarizes "people" .find
  obtain ⟨hbuilt, hexit⟩ := hcongr _ _ hsame
  exact ⟨hsame, hbuilt, hexit none, (hsummary interleaved).limit⟩

end Statement

end DocQuery
