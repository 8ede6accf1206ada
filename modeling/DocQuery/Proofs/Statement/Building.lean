import DocQuery.Proofs.Statement.Rules
import DocQuery.Statement.Clause

/-! What a statement built clause by clause amounts to: of each sort the clause that came last, but
every sort entry, in order. -/
namespace DocQuery

namespace Clause

def filter? : Clause → Option Predicate
  | .filter predicate => some predicate
  | _ => none

def sort? : Clause → Option SortEntry
  | .sort attr direction => some ⟨attr, direction⟩
  | _ => none

def limit? : Clause → Option Nat
  | .limit count => some count
  | _ => none

def skip? : Clause → Option Nat
  | .skip count => some count
  | _ => none

def select? : Clause → Option (List String)
  | .select attributes => some attributes
  | _ => none

def criteriaOpts? : Clause → Option Dictionary
  | .criteriaOpts values => some values
  | _ => none

def opts? : Clause → Option Dictionary
  | .opts values => some values
  | _ => none

/-- Whether the clause belongs to the criteria, and not to the statement itself. -/
def isCriteria : Clause → Bool
  | .opts _ => false
  | _ => true

theorem isCriteria_eq_false_iff {clause : Clause} :
    clause.isCriteria = false ↔ clause.filter? = none ∧ clause.sort? = none ∧
      clause.limit? = none ∧ clause.skip? = none ∧ clause.select? = none ∧
        clause.criteriaOpts? = none := by
  cases clause <;> simp [isCriteria, filter?, sort?, limit?, skip?, select?, criteriaOpts?]

end Clause

/-- What the last clause of a sort sets. -/
def lastSet {α : Type} (part : Clause → Option α) (clauses : List Clause) : Option α :=
  (clauses.filterMap part).getLast?

section LastSet

variable {α : Type} {part : Clause → Option α} {clauses : List Clause}

@[simp] theorem lastSet_append (clause : Clause) :
    lastSet part (clauses ++ [clause]) = (part clause).or (lastSet part clauses) := by
  rw [lastSet, lastSet, List.filterMap_append]
  cases h : part clause <;> simp [h]

theorem lastSet_eq_none_iff :
    lastSet part clauses = none ↔ ∀ clause ∈ clauses, part clause = none := by
  rw [lastSet, List.getLast?_eq_none_iff, List.filterMap_eq_nil_iff]

theorem exists_of_lastSet {a : α} (h : lastSet part clauses = some a) :
    ∃ clause ∈ clauses, part clause = some a :=
  List.mem_filterMap.1 (List.mem_of_getLast? h)

end LastSet

namespace Criteria

/-- Sort entries add up, and without any there is no order. -/
def ofClauses (clauses : List Clause) : Criteria where
  filter := lastSet Clause.filter? clauses
  sort := (some (clauses.filterMap Clause.sort?)).filter fun entries => !entries.isEmpty
  limit := lastSet Clause.limit? clauses
  skip := lastSet Clause.skip? clauses
  select := lastSet Clause.select? clauses
  opts := lastSet Clause.criteriaOpts? clauses

theorem getD_sort_ofClauses (clauses : List Clause) :
    (ofClauses clauses).sort.getD [] = clauses.filterMap Clause.sort? := by
  unfold ofClauses
  cases clauses.filterMap Clause.sort? <;> rfl

/-- Criteria are empty exactly as long as no clause of theirs is added. -/
theorem isEmpty_ofClauses_iff {clauses : List Clause} :
    (ofClauses clauses).isEmpty = true ↔ ¬ clauses.any Clause.isCriteria = true := by
  have hsort : (ofClauses clauses).sort = none ↔ ∀ clause ∈ clauses, clause.sort? = none := by
    rw [← List.filterMap_eq_nil_iff, ofClauses]
    cases clauses.filterMap Clause.sort? <;> simp [Option.filter]
  simp only [isEmpty, Bool.and_eq_true, Option.isNone_iff_eq_none, hsort]
  simp only [ofClauses, lastSet_eq_none_iff, Bool.not_eq_true, List.any_eq_false,
    Clause.isCriteria_eq_false_iff]
  grind

theorem ofClauses_append_of_not_criteria {clause : Clause} (h : clause.isCriteria = false)
    (clauses : List Clause) : ofClauses (clauses ++ [clause]) = ofClauses clauses := by
  obtain ⟨hfilter, hsort, hlimit, hskip, hselect, hopts⟩ := Clause.isCriteria_eq_false_iff.1 h
  simp [ofClauses, hfilter, hsort, hlimit, hskip, hselect, hopts]

end Criteria

namespace Statement

/-- A statement of a kind, before any clause is added. -/
def start (collection : String) (kind : StatementKind) : Statement := ⟨collection, kind, none, none⟩

/-- The statement that clauses describe. -/
def ofClauses (collection : String) (kind : StatementKind) (clauses : List Clause) : Statement where
  collection := collection
  kind := kind
  criteria := if clauses.any Clause.isCriteria then some (Criteria.ofClauses clauses) else none
  opts := lastSet Clause.opts? clauses

variable {collection : String} {kind : StatementKind} {clauses : List Clause}

theorem getD_criteria_ofClauses :
    (ofClauses collection kind clauses).criteria.getD Criteria.empty =
      Criteria.ofClauses clauses := by
  rw [ofClauses]
  dsimp only
  split
  · rfl
  · next hnone => exact (Criteria.isEmpty_iff.1 (Criteria.isEmpty_ofClauses_iff.2 hnone)).symm

/-- A clause that belongs to the criteria changes them alone. -/
theorem mapCriteria_ofClauses (clause : Clause) {f : Criteria → Criteria}
    (hclause : clause.isCriteria = true)
    (hf : f (Criteria.ofClauses clauses) = Criteria.ofClauses (clauses ++ [clause])) :
    (ofClauses collection kind clauses).mapCriteria f =
      ofClauses collection kind (clauses ++ [clause]) := by
  have hopts : clause.opts? = none := by
    cases clause <;> first | rfl | cases hclause
  rw [mapCriteria, getD_criteria_ofClauses, hf]
  simp [ofClauses, hclause, hopts]

theorem add_ofClauses (clause : Clause) :
    (ofClauses collection kind clauses).add clause =
      ofClauses collection kind (clauses ++ [clause]) := by
  cases clause with
  | opts opts =>
    have hcriteria : (Clause.opts opts).isCriteria = false := rfl
    rw [add, ofClauses, ofClauses, List.any_append, lastSet_append,
      Criteria.ofClauses_append_of_not_criteria hcriteria]
    simp [hcriteria, Clause.opts?]
  | sort attr direction =>
    -- The only clause that looks at what was set before it.
    rw [add]
    refine mapCriteria_ofClauses _ rfl ?_
    rw [Criteria.getD_sort_ofClauses]
    simp [Criteria.ofClauses, Option.filter, Clause.sort?, Clause.filter?, Clause.limit?,
      Clause.skip?, Clause.select?, Clause.criteriaOpts?]
  | _ =>
    rw [add]
    refine mapCriteria_ofClauses _ rfl ?_
    simp [Criteria.ofClauses, List.filterMap_cons, Clause.sort?, Clause.filter?, Clause.limit?,
      Clause.skip?, Clause.select?, Clause.criteriaOpts?]

theorem addAll_ofClauses (clauses added : List Clause) :
    (ofClauses collection kind clauses).addAll added =
      ofClauses collection kind (clauses ++ added) := by
  induction added generalizing clauses with
  | nil => rw [List.append_nil, addAll, List.foldl_nil]
  | cons clause added ih =>
    rw [addAll, List.foldl_cons, ← addAll, add_ofClauses, ih, List.append_assoc,
      List.singleton_append]

/-- A statement that is built is the one that its clauses describe. -/
theorem addAll_start (clauses : List Clause) :
    (start collection kind).addAll clauses = ofClauses collection kind clauses :=
  addAll_ofClauses [] clauses

end Statement

end DocQuery
